import MessageTemplate.Proofs.Grammar.ExprCompleteness

/-!
# Completeness of the grammar

Whatever has the form of a part, of a statement or of a template is read by its
rule. Each form says which tokens behind it would be taken to go on with it: for
a field in order that is a mark, for an open statement an `else`.
-/

namespace MessageTemplate

/-! ## First tokens -/

/-- Can a statement start with the token? -/
def Token.startsStmt : Token → Bool
  | .symbol .braceOpen | .symbol .semicolon => true
  | .ident word =>
    match Keyword.ofWord? word with
    | some .constant | some .otherwise | some .among | some .inline => false
    | _ => true
  | token => token.startsExpr

theorem Token.startsStmt_of_startsExpr {token : Token} (h : token.startsExpr = true) :
    token.startsStmt = true := by
  unfold Token.startsStmt
  split
  · rfl
  · rfl
  · unfold Token.startsExpr at h
    split at h <;> split <;> simp_all
  · exact h

theorem Token.ne_of_startsStmt {token other : Token} (h : token.startsStmt = true)
    (hother : other.startsStmt = false) : token ≠ other := by
  rintro rfl
  rw [h] at hother
  contradiction

theorem SimpleForm.startsStmt {ls rest : List Lexeme} {s : SourceStmt} (h : SimpleForm ls s rest) :
    (headOf ls).startsStmt = true := by
  cases h with
  | assign hname hfree _ _ =>
    rw [hname.headOf_eq]
    simp [Token.startsStmt, hfree]
  | expr hvalue => exact Token.startsStmt_of_startsExpr hvalue.startsExpr

theorem Sentence.startsStmt {ls rest : List Lexeme} {s : SourceStmt} (h : Sentence ls s rest) :
    (headOf ls).startsStmt = true := by
  cases h with
  | empty hclose => rw [hclose.headOf_eq]; rfl
  | simple hsimple _ => exact hsimple.startsStmt
  | block _ hblock =>
    obtain ⟨hopen, -, -⟩ := hblock
    rw [hopen.headOf_eq]
    rfl
  | function hword _ _ _ _ _ => rw [hword.headOf_eq]; rfl
  | result hword _ => rw [hword.headOf_eq]; rfl
  | branch hword _ _ => rw [hword.headOf_eq]; rfl
  | branchElse hword _ _ _ _ _ => rw [hword.headOf_eq]; rfl
  | forLoop hword _ _ _ _ _ _ _ _ => rw [hword.headOf_eq]; rfl
  | foreach hword _ _ _ _ _ _ => rw [hword.headOf_eq]; rfl
  | whileLoop hword _ _ => rw [hword.headOf_eq]; rfl
  | doWhile hword _ _ _ _ => rw [hword.headOf_eq]; rfl
  | text hword _ => rw [hword.headOf_eq]; rfl
  | attachment hword _ => rw [hword.headOf_eq]; rfl
  | embed hword _ => rw [hword.headOf_eq]; rfl

/-- The first token of an embed part is a word. -/
theorem EmbedPartForm.exists_word {ls rest : List Lexeme} {part : EmbedPart SourceExpr Position}
    (h : EmbedPartForm ls part rest) : ∃ word, headOf ls = .ident word := by
  obtain ⟨hword, -, -⟩ := h
  exact ⟨_, hword.headOf_eq⟩

/-- What no expression in front goes on with. -/
def EndsExpr (rest : List Lexeme) : Prop := (headOf rest).continues Level.whole = false

theorem Takes.endsExpr {token : Token} {ls rest : List Lexeme} (h : Takes token ls rest)
    (htoken : token.continues Level.whole = false) : EndsExpr ls := by
  rw [EndsExpr, h.headOf_eq]
  exact htoken

theorem EndsExpr.of_headOf {token : Token} {ls : List Lexeme} (h : headOf ls = token)
    (htoken : token.continues Level.whole = false) : EndsExpr ls := by
  rw [EndsExpr, h]
  exact htoken

theorem FieldForm.headOf_ne_inline {ls rest : List Lexeme} {field : Parser.SourceField}
    (h : FieldForm ls field rest) : headOf ls ≠ Keyword.inline.token := by
  cases h with
  | object hsettings =>
    obtain ⟨hopen, -, -⟩ := hsettings
    rw [hopen.headOf_eq]
    decide
  | tuple hopen _ _ =>
    rw [hopen.headOf_eq]
    decide
  | flow hflow =>
    obtain ⟨htitle, -, -, -⟩ := hflow
    exact htitle.headOf_ne rfl

namespace Parser

section

variable {ls mid rest : List Lexeme}

/-! ## Parts of an embed -/

section

variable {α : Type} {entry : String → Form α} {rule : Position → String → Parser α}
  {values : List α}

/-- The rule for an entry reads what stands in front of a comma or of the closing brace. -/
def ReadsEntries (rule : Position → String → Parser α) (entry : String → Form α) : Prop :=
  ∀ place word ls value rest, entry word ls value rest →
    headOf rest = .symbol .comma ∨ headOf rest = .symbol .braceClose →
    Yields (rule place word) ls value rest

theorem entriesWithin_yields (hrule : ReadsEntries rule entry)
    (hbehind : ∀ word ls value rest, entry word ls value rest → IsBehind rest ls)
    (h : Entries entry ls values rest) (hclose : headOf rest = .symbol .braceClose) {rounds : Nat}
    (hrounds : ls.length < rounds) : Yields (entriesWithin rule rounds) ls values rest := by
  induction h generalizing rounds with
  | none =>
    obtain ⟨rounds, rfl⟩ := Nat.exists_eq_succ_of_ne_zero (Nat.ne_zero_of_lt hrounds)
    apply Yields.peek
    rw [if_pos hclose]
    exact .pure
  | last hword hcolon hentry =>
    obtain ⟨rounds, rfl⟩ := Nat.exists_eq_succ_of_ne_zero (Nat.ne_zero_of_lt hrounds)
    apply Yields.peek
    rw [if_neg (by rw [hword.headOf_eq]; simp)]
    refine .here (.bind (propertyName_yields hword) (.require hcolon ?_))
    exact .bind (hrule _ _ _ _ _ hentry (.inr hclose)) (.refuse (by rw [hclose]; decide) .pure)
  | more hword hcolon hentry hcomma _ ih =>
    obtain ⟨rounds, rfl⟩ := Nat.exists_eq_succ_of_ne_zero (Nat.ne_zero_of_lt hrounds)
    have hfirst := ((hbehind _ _ _ _ hentry).trans hcolon.isBehind).trans hword.isBehind
    have hlength := (hcomma.isBehind.trans hfirst).length_lt
    have hvalues := ih hclose (by omega : _ < rounds)
    apply Yields.peek
    rw [if_neg (by rw [hword.headOf_eq]; simp)]
    refine .here (.bind (propertyName_yields hword) (.require hcolon ?_))
    refine .bind (hrule _ _ _ _ _ hentry (.inl hcomma.headOf_eq)) ?_
    exact .accept hcomma (.bind hvalues .pure)

theorem object_yields (hrule : ReadsEntries rule entry)
    (hbehind : ∀ word ls value rest, entry word ls value rest → IsBehind rest ls)
    (h : ObjectForm entry ls values rest) : Yields (object rule) ls values rest := by
  obtain ⟨hopen, hentries, hclose⟩ := h
  have hvalues := entriesWithin_yields hrule hbehind hentries hclose.headOf_eq (Nat.lt_succ_self _)
  exact .require hopen (.bind (.bounded hvalues) (.require hclose .pure))

end

theorem nextInFlow_yields {value : Option SourceExpr} (h : Following Whole ls value rest)
    (hrest : EndsExpr rest) (hcomma : headOf rest ≠ .symbol .comma) :
    Yields nextInFlow ls value rest := by
  cases h with
  | none => exact .refuse hcomma .pure
  | some htakes hvalue => exact .accept htakes (.bind (hvalue.yields hrest) .pure)

/-- An expression may stand in front of what may follow it. -/
theorem Following.endsExpr {value : Option SourceExpr} (h : Following Whole ls value rest)
    (hrest : EndsExpr rest) : EndsExpr ls := by
  cases h with
  | none => exact hrest
  | some htakes _ => exact htakes.endsExpr rfl

theorem authorFlow_yields {flow : AuthorFlow SourceExpr} (h : AuthorFlowForm ls flow rest)
    (hrest : headOf rest = .symbol .semicolon) : Yields authorFlow ls flow rest := by
  have hends : EndsExpr rest := .of_headOf hrest rfl
  have hcomma : headOf rest ≠ .symbol .comma := by
    rw [hrest]
    decide
  cases h with
  | name hname => exact .bind (hname.yields hends) (.bind (.refuse hcomma .pure) .pure)
  | url hname hurl hicon =>
    have hnext := nextInFlow_yields hicon hends hcomma
    cases hurl with
    | some htakes hvalue =>
      refine .bind (hname.yields (htakes.endsExpr rfl)) ?_
      refine .bind (.accept htakes (.bind (hvalue.yields (Following.endsExpr hicon hends)) .pure))
        ?_
      exact .bind hnext .pure

theorem footerFlow_yields {flow : FooterFlow SourceExpr} (h : FooterFlowForm ls flow rest)
    (hrest : headOf rest = .symbol .semicolon) : Yields footerFlow ls flow rest := by
  have hends : EndsExpr rest := .of_headOf hrest rfl
  have hcomma : headOf rest ≠ .symbol .comma := by
    rw [hrest]
    decide
  obtain ⟨htext, hicon⟩ := h
  exact .bind (htext.yields (Following.endsExpr hicon hends))
    (.bind (nextInFlow_yields hicon hends hcomma) .pure)

section

variable {F K : Type} {owner : PropertyOwner} {ofWord? : String → Option K}

theorem propertyKey_yields {place : Position} {word : String} {key : K}
    (h : ofWord? word = some key) :
    Yields (propertyKey owner ofWord? place word) ls key ls := by
  unfold propertyKey
  rw [h]
  exact .pure

theorem keyed_yields (key : PropertyOwner) : ReadsEntries (fun place word => do
    let key ← propertyKey key ofWord? place word
    return (key, ← expr)) (KeyedForm ofWord?) := by
  rintro place word ls ⟨key, value⟩ rest ⟨hkey, hvalue⟩ hrest
  have hends : EndsExpr rest := by
    rcases hrest with hrest | hrest <;> exact .of_headOf hrest rfl
  exact .bind (propertyKey_yields hkey) (.bind (hvalue.yields hends) .pure)

theorem sectionBody_yields {flow : Parser F} {form : Form F}
    {written : WriteMode × Section F K SourceExpr}
    (hflow : ∀ ls values rest, form ls values rest → headOf rest = .symbol .semicolon →
      Yields flow ls values rest)
    (hhead : ∀ ls values rest, form ls values rest → headOf ls ≠ .symbol .braceOpen)
    (h : SectionForm ofWord? form ls written rest) (hrest : headOf rest = .symbol .semicolon) :
    Yields (sectionBody owner ofWord? flow) ls written rest := by
  have hmark : ∀ (mode : WriteMode), Token.symbol (WriteMode.symbol mode) ≠ .symbol .dot := by
    intro mode
    cases mode <;> decide
  cases h with
  | property hdot hword hkey hmode hvalue =>
    refine .accept hdot (.here (.bind (propertyName_yields hword) ?_))
    refine .bind (propertyKey_yields hkey) (.bind (writeMode_yields hmode) ?_)
    exact .bind (hvalue.yields (EndsExpr.of_headOf hrest rfl)) .pure
  | object hmode hentries =>
    have hobject := object_yields (keyed_yields owner) (fun _ _ _ _ h => h.2.isBehind) hentries
    obtain ⟨hopen, -, -⟩ := hentries
    refine .refuse (by rw [hmode.headOf_eq]; exact hmark _) (.bind (writeMode_yields hmode) ?_)
    apply Yields.peek
    rw [if_pos hopen.headOf_eq]
    exact .bind hobject .pure
  | flow hmode hvalues =>
    refine .refuse (by rw [hmode.headOf_eq]; exact hmark _) (.bind (writeMode_yields hmode) ?_)
    apply Yields.peek
    rw [if_neg (hhead _ _ _ hvalues)]
    exact .bind (hflow _ _ _ hvalues hrest) .pure

end

theorem AuthorFlowForm.startsExpr {flow : AuthorFlow SourceExpr} (h : AuthorFlowForm ls flow rest) :
    (headOf ls).startsExpr = true := by
  cases h with
  | name hname | url hname _ _ => exact hname.startsExpr

theorem FooterFlowForm.startsExpr {flow : FooterFlow SourceExpr} (h : FooterFlowForm ls flow rest) :
    (headOf ls).startsExpr = true := by
  obtain ⟨htext, -⟩ := h
  exact htext.startsExpr

theorem fieldSetting_yields {place : Position} {word : String} {setting : FieldSetting SourceExpr}
    (h : SettingForm word ls setting rest) (hrest : EndsExpr rest) :
    Yields (fieldSetting place word) ls setting rest := by
  cases h with
  | title hvalue => exact .bind (hvalue.yields hrest) .pure
  | text hvalue => exact .bind (hvalue.yields hrest) .pure
  | inline _ hvalue => exact .bind (boolean_yields hvalue) .pure

theorem fieldSetting_yields_entries : ReadsEntries fieldSetting SettingForm := by
  intro place word ls setting rest h hrest
  refine fieldSetting_yields h ?_
  rcases hrest with hrest | hrest <;> exact .of_headOf hrest rfl

/-- What no field in order goes on with. -/
structure EndsField (rest : List Lexeme) : Prop where
  expr : EndsExpr rest
  mark : ∀ mid next, Takes (.symbol .comma) rest mid → ¬ Takes Keyword.inline.token mid next

theorem EndsField.of_headOf {token : Token} (h : headOf rest = token)
    (htoken : token.continues Level.whole = false) (hcomma : token ≠ .symbol .comma) :
    EndsField rest :=
  ⟨.of_headOf h htoken, fun _ _ htakes => absurd (h.symm.trans htakes.headOf_eq) hcomma⟩

theorem inlineMark_yields {inline : Bool} (h : InlineForm ls inline rest) (hrest : EndsField rest) :
    Yields inlineMark ls inline rest := by
  cases h with
  | plain =>
    apply Yields.get
    split
    · rename_i comma word place more
      split
      · rename_i hword
        subst hword
        exact absurd ⟨_, rfl⟩ (hrest.mark _ more ⟨_, rfl⟩)
      · exact .pure
    · exact .pure
  | marked hcomma hword =>
    obtain ⟨_, rfl⟩ := hcomma
    obtain ⟨_, rfl⟩ := hword
    apply Yields.get
    change Yields (if Keyword.inline.word = Keyword.inline.word then _ else _) _ _ _
    rw [if_pos rfl]
    exact .set .pure

theorem InlineForm.endsExpr {inline : Bool} (h : InlineForm ls inline rest)
    (hrest : EndsField rest) :
    EndsExpr ls := by
  cases h with
  | plain => exact hrest.expr
  | marked hcomma _ => exact hcomma.endsExpr rfl

section

variable {place : Position} {title text : SourceExpr} {inline : Bool}

theorem fieldFlow_yields (place : Position) (h : FlowForm ls (title, text, inline) rest)
    (hrest : EndsField rest) :
    Yields (fieldFlow place) ls (.flow place title text inline) rest := by
  obtain ⟨htitle, hcomma, htext, hinline⟩ := h
  refine .bind (htitle.yields (hcomma.endsExpr rfl)) (.require hcomma ?_)
  refine .bind (htext.yields (InlineForm.endsExpr hinline hrest)) ?_
  exact .bind (inlineMark_yields hinline hrest) .pure

theorem fieldTuple_yields {next : List Lexeme} (hopen : Takes (.symbol .parenOpen) ls mid)
    (h : FlowForm mid (title, text, inline) next) (hclose : Takes (.symbol .parenClose) next rest) :
    Yields (fieldTuple place) ls (some (.flow place title text inline)) rest := by
  have hnext : EndsField next := .of_headOf hclose.headOf_eq rfl (by decide)
  obtain ⟨htitle, hcomma, htext, hinline⟩ := h
  refine .get (.require hopen (.bind (htitle.yields (hcomma.endsExpr rfl)) (.accept hcomma ?_)))
  refine .bind (htext.yields (InlineForm.endsExpr hinline hnext)) ?_
  exact .bind (inlineMark_yields hinline hnext) (.require hclose .pure)

/-- A title that starts with a parenthesis is not taken for a tuple. -/
theorem fieldTuple_gives_back {level : Nat} (htitle : Phrase level ls title rest)
    (hhead : headOf ls = .symbol .parenOpen) : Yields (fieldTuple place) ls none ls := by
  obtain ⟨mid, inside, next, after, hopen, hinside, hclose⟩ := htitle.exists_paren hhead
  refine .get (.require hopen (.bind (hinside.yields (hclose.endsExpr rfl)) ?_))
  exact .refuse (by rw [hclose.headOf_eq]; decide) (.set .pure)

end

theorem field_yields {field : SourceField} (h : FieldForm ls field rest) (hrest : EndsField rest) :
    Yields Parser.field ls field rest := by
  cases h with
  | object hsettings =>
    have hobject := object_yields fieldSetting_yields_entries
      (fun _ _ _ _ => SettingForm.isBehind) hsettings
    obtain ⟨hopen, -, -⟩ := hsettings
    refine .here (.peek ?_)
    rw [hopen.headOf_eq]
    exact .bind hobject .pure
  | tuple hopen hflow hclose =>
    refine .here (.peek ?_)
    rw [hopen.headOf_eq]
    exact .bind (fieldTuple_yields hopen hflow hclose) .pure
  | flow hflow =>
    have hfield := fieldFlow_yields (placeOf ls) hflow hrest
    obtain ⟨htitle, -, -, -⟩ := hflow
    refine .here (.peek ?_)
    split
    · exact absurd ‹_› (htitle.headOf_ne rfl)
    · exact .bind (fieldTuple_gives_back htitle ‹_›) hfield
    · exact hfield

theorem fieldsBody_yields {written : WriteMode × FieldsBody SourceExpr Position}
    (h : FieldsForm ls written rest) (hrest : headOf rest = .symbol .semicolon) :
    Yields fieldsBody ls written rest := by
  have hmark : ∀ (mode : WriteMode), Token.symbol (WriteMode.symbol mode) ≠ .symbol .dot := by
    intro mode
    cases mode <;> decide
  cases h with
  | property hdot hword hmode hsetting =>
    refine .accept hdot (.here
      (.bind (propertyName_yields hword) (.bind (writeMode_yields hmode) ?_)))
    exact .bind (fieldSetting_yields hsetting (.of_headOf hrest rfl)) .pure
  | @list ls mid next after rest mode fields hmode hopen hfields hclose =>
    have hitems : Yields (commaSeparated Parser.field) next fields after := by
      have hreads : ReadsAll Parser.field FieldForm EndsField next.length :=
        fun _ _ _ h hstop _ => field_yields h hstop
      refine .bounded (commaSeparatedWithin_yields hreads (fun _ _ _ => FieldForm.isBehind) ?_
        hfields (.of_headOf hclose.headOf_eq rfl (by decide)) ?_ le_rfl (Nat.lt_succ_self _))
      · intro ls next field rest hcomma hfield
        refine ⟨hcomma.endsExpr rfl, fun other after hother hinline => ?_⟩
        obtain ⟨_, rfl⟩ := hcomma
        obtain ⟨_, heq⟩ := hother
        obtain ⟨-, rfl⟩ := List.cons.inj heq
        exact hfield.headOf_ne_inline hinline.headOf_eq
      · rw [hclose.headOf_eq]
        decide
    refine .refuse (by rw [hmode.headOf_eq]; exact hmark _) (.bind (writeMode_yields hmode) ?_)
    exact .accept hopen (.bind hitems (.require hclose .pure))
  | part hmode hhead hfield =>
    refine .refuse (by rw [hmode.headOf_eq]; exact hmark _) (.bind (writeMode_yields hmode) ?_)
    exact .refuse hhead (.bind (field_yields hfield (.of_headOf hrest rfl (by decide))) .pure)

theorem partBody_yields {place : Position} {word : String} {body : PartBody SourceExpr Position}
    (h : PartForm word ls body rest) (hrest : headOf rest = .symbol .semicolon) :
    Yields (partBody place word) ls body rest := by
  cases h with
  | member hkey hassign hvalue =>
    unfold partBody
    rw [hkey]
    exact .require hassign (.bind (hvalue.yields (EndsExpr.of_headOf hrest rfl)) .pure)
  | author hbody =>
    exact .bind (sectionBody_yields (fun _ _ _ => authorFlow_yields)
      (fun _ _ _ h => Token.ne_of_startsExpr (AuthorFlowForm.startsExpr h) rfl) hbody hrest) .pure
  | footer hbody =>
    exact .bind (sectionBody_yields (fun _ _ _ => footerFlow_yields)
      (fun _ _ _ h => Token.ne_of_startsExpr (FooterFlowForm.startsExpr h) rfl) hbody hrest) .pure
  | fields hword hbody =>
    rcases hword with rfl | rfl <;> exact .bind (fieldsBody_yields hbody hrest) .pure

theorem embedPart_yields {part : EmbedPart SourceExpr Position} (h : EmbedPartForm ls part rest) :
    Yields embedPart ls part rest := by
  obtain ⟨hword, hbody, hsemicolon⟩ := h
  refine .here (.bind (propertyName_yields hword) ?_)
  exact .bind (partBody_yields hbody hsemicolon.headOf_eq) (.require hsemicolon .pure)

theorem embed_yields {place : Position} {parts : List (EmbedPart SourceExpr Position)}
    (h : PartsForm ls parts rest) : Yields (embed place) ls (.embed place parts) rest := by
  cases h with
  | single hdot hpart => exact .accept hdot (.bind (embedPart_yields hpart) .pure)
  | @braces _ mid next _ _ hopen hparts hclose =>
    have hitems : Yields (untilBrace embedPart) mid parts rest := by
      have hreads : ReadsAll embedPart EmbedPartForm (fun _ => True) mid.length :=
        fun _ _ _ h _ _ => embedPart_yields h
      refine .bounded (untilBraceWithin_yields hreads (fun _ _ _ => EmbedPartForm.isBehind) ?_
        (fun _ _ _ _ => trivial) (fun _ _ _ => trivial) hparts hclose le_rfl (Nat.lt_succ_self _))
      intro ls part rest hpart
      obtain ⟨word, hhead⟩ := hpart.exists_word
      rw [hhead]
      exact ⟨by simp, by simp⟩
    refine .refuse (by rw [hopen.headOf_eq]; decide) (.require hopen (.bind hitems .pure))

/-! ## Statements -/

theorem simple_yields {s : SourceStmt} (h : SimpleForm ls s rest) (hrest : EndsExpr rest)
    (hassign : headOf rest ≠ .symbol .assign) : Yields simple ls s rest := by
  cases h with
  | assign hname hfree htakes hvalue =>
    have hword := name_yields .assigned ⟨hname, hfree⟩
    obtain ⟨_, rfl⟩ := hname
    obtain ⟨_, rfl⟩ := htakes
    exact .here (.get (.bind hword (.skip ⟨_, rfl⟩ (.bind (hvalue.yields hrest) .pure))))
  | expr hvalue =>
    have hexpr := hvalue.yields hrest
    refine .here (.get ?_)
    split
    · rename_i word place assignPlace more
      obtain rfl := hvalue.rest_of_assign ⟨_, rfl⟩ ⟨_, rfl⟩
      exact absurd rfl hassign
    · exact .bind hexpr .pure

theorem exprSemicolon_yields {value : SourceExpr} (h : ClosedForm ls value rest) :
    Yields exprSemicolon ls value rest := by
  obtain ⟨hvalue, hclose⟩ := h
  exact .bind (hvalue.yields (hclose.endsExpr rfl)) (.require hclose .pure)

theorem parenthesized_yields {value : SourceExpr} (h : ConditionForm ls value rest) :
    Yields parenthesized ls value rest := by
  obtain ⟨hopen, hvalue, hclose⟩ := h
  exact .require hopen (.bind (hvalue.yields (hclose.endsExpr rfl)) (.require hclose .pure))

theorem unlessAt_yields {α : Type} {stop : Symbol} {rule : Parser α} {form : Form α}
    {value : Option α} (h : Optional form ls value mid) (hstop : Takes (.symbol stop) mid rest)
    (hhead : ∀ ls value rest, form ls value rest → headOf ls ≠ .symbol stop)
    (hrule : ∀ ls value rest, form ls value rest → headOf rest = .symbol stop →
      Yields rule ls value rest) : Yields (unlessAt stop rule) ls value mid := by
  cases h with
  | none =>
    apply Yields.peek
    rw [if_pos hstop.headOf_eq]
    exact .pure
  | some hitem =>
    apply Yields.peek
    rw [if_neg (hhead _ _ _ hitem)]
    exact .bind (hrule _ _ _ hitem hstop.headOf_eq) .pure

theorem clause_yields {stop : Symbol} (hsymbol : stop = .semicolon ∨ stop = .parenClose)
    {s : SourceStmt}
    (h : SimpleForm ls s rest) (hrest : headOf rest = .symbol stop) : Yields simple ls s rest := by
  refine simple_yields h ?_ ?_
  · rcases hsymbol with rfl | rfl <;> exact .of_headOf hrest rfl
  · rw [hrest]
    rcases hsymbol with rfl | rfl <;> decide

theorem SimpleForm.headOf_ne {s : SourceStmt} (h : SimpleForm ls s rest) {stop : Symbol}
    (hsymbol : stop = .semicolon ∨ stop = .parenClose) : headOf ls ≠ .symbol stop := by
  cases h with
  | assign hname _ _ _ =>
    rw [hname.headOf_eq]
    simp
  | expr hvalue => exact hvalue.headOf_ne (by obtain rfl | rfl := hsymbol <;> rfl)

theorem exprStmt_yields {s : SourceStmt} (hsimple : SimpleForm ls s mid)
    (hclose : Takes (.symbol .semicolon) mid rest) : Yields exprStmt ls s rest :=
  .bind (clause_yields (.inl rfl) hsimple hclose.headOf_eq) (.require hclose .pure)

theorem SimpleForm.headOf_ne_brace {s : SourceStmt} (h : SimpleForm ls s rest) :
    headOf ls ≠ .symbol .braceOpen := by
  cases h with
  | assign hname _ _ _ =>
    rw [hname.headOf_eq]
    simp
  | expr hvalue => exact hvalue.headOf_ne rfl

/-- The only reserved words in front of an expression are the truth values. -/
theorem SimpleForm.keyword {s : SourceStmt} (h : SimpleForm ls s rest) {word : String}
    {keyword : Keyword} (hhead : headOf ls = .ident word)
    (hword : Keyword.ofWord? word = some keyword) :
    keyword = .truth ∨ keyword = .falsity := by
  cases h with
  | assign hname hfree _ _ =>
    rw [hname.headOf_eq] at hhead
    cases hhead
    rw [hfree] at hword
    cases hword
  | expr hvalue =>
    have hstart := hvalue.startsExpr
    rw [hhead, Token.startsExpr, hword] at hstart
    cases keyword <;> first | exact .inl rfl | exact .inr rfl | cases hstart

section

variable {inner : Parser SourceStmt} {s : SourceStmt}

/-- A statement that starts with a reserved word is read by the rule for that word. -/
theorem stmtRule_keyword {keyword : Keyword} (hword : Takes keyword.token ls mid)
    (h : Yields (keywordStmt inner (placeOf ls) keyword) ls s rest) :
    Yields (stmtRule inner) ls s rest := by
  refine .here (.peek ?_)
  rw [hword.headOf_eq, Keyword.token]
  dsimp only
  rw [Keyword.ofWord?_word]
  exact h

theorem stmtRule_simple (hsimple : SimpleForm ls s mid)
    (hclose : Takes (.symbol .semicolon) mid rest) :
    Yields (stmtRule inner) ls s rest := by
  have hstmt := exprStmt_yields hsimple hclose
  refine .here (.peek ?_)
  split
  · exact absurd ‹_› (SimpleForm.headOf_ne_brace hsimple)
  · exact absurd ‹_› (SimpleForm.headOf_ne hsimple (.inl rfl))
  · rename_i word hhead
    split
    · rename_i keyword hword
      rcases SimpleForm.keyword hsimple hhead hword with rfl | rfl <;> exact hstmt
    · exact hstmt
  · exact hstmt

/-- No `else` is in front. -/
def NoElse (ls : List Lexeme) : Prop := headOf ls ≠ Keyword.otherwise.token

/-- The rule inside reads these statements if they are short. -/
def ReadsStmts (inner : Parser SourceStmt) (item : Form SourceStmt) (bound : Nat) : Prop :=
  ReadsAll inner item NoElse bound

variable {item : Form SourceStmt} {bound : Nat}

theorem block_yields (hinner : ReadsStmts inner item bound)
    (hitem : ∀ ls value rest, item ls value rest → Sentence ls value rest)
    (h : BlockForm item ls s rest) (hbound : ls.length ≤ bound + 1) :
    Yields (block inner) ls s rest := by
  obtain ⟨hopen, hbody, hclose⟩ := h
  have hlength := hopen.isBehind.length_lt
  refine .here (.require hopen (.bind (.bounded ?_) .pure))
  refine untilBraceWithin_yields hinner (fun _ _ _ h => (hitem _ _ _ h).isBehind) ?_ ?_ ?_ hbody
    hclose (by omega) (Nat.lt_succ_self _)
  · intro ls value rest h
    have hstart := (hitem _ _ _ h).startsStmt
    exact ⟨Token.ne_of_startsStmt hstart rfl, Token.ne_of_startsStmt hstart rfl⟩
  · exact fun ls value rest h => Token.ne_of_startsStmt (hitem _ _ _ h).startsStmt rfl
  · intro ls next htakes
    rw [NoElse, htakes.headOf_eq]
    decide

theorem functionDeclaration_yields (hinner : ReadsStmts inner item bound)
    (hitem : ∀ ls value rest, item ls value rest → Sentence ls value rest) {place : Position}
    {next after behind : List Lexeme} {functionName : String} {parameters : List String}
    (hname : NameForm mid functionName next) (hopen : Takes (.symbol .parenOpen) next after)
    (hparameters : Listed NameForm .parenClose after parameters behind)
    (hbody : BlockForm item behind s rest) (hbound : behind.length ≤ bound) :
    Yields (functionDeclaration inner place) mid
      (.function place functionName (placeOf mid) parameters s) rest := by
  have hnames : Yields (listUntil (name .parameter) .parenClose) after parameters behind := by
    have hreads : ReadsAll (name .parameter) NameForm (fun _ => True) after.length :=
      fun _ _ _ h _ _ => name_yields _ h
    refine listUntil_yields hreads (fun _ _ _ h => h.1.isBehind) ?_
      (fun _ _ _ _ _ _ => trivial) (fun _ _ _ => trivial) (by decide) hparameters le_rfl
    intro ls word rest h
    rw [h.1.headOf_eq]
    simp
  refine .here (.bind (name_yields _ hname) (.require hopen (.bind hnames ?_)))
  exact .bind (block_yields hinner hitem hbody (Nat.le_succ_of_le hbound)) .pure

theorem forLoop_yields {place : Position} {init step : Option SourceStmt}
    {check : Option SourceExpr}
    {next afterInit toCheck afterCheck toStep afterStep toBody : List Lexeme}
    (hopen : Takes (.symbol .parenOpen) mid next) (hinit : Optional SimpleForm next init afterInit)
    (hinitClose : Takes (.symbol .semicolon) afterInit toCheck)
    (hcheck : Optional Whole toCheck check afterCheck)
    (hcheckClose : Takes (.symbol .semicolon) afterCheck toStep)
    (hstep : Optional SimpleForm toStep step afterStep)
    (hstepClose : Takes (.symbol .parenClose) afterStep toBody)
    (hbody : Yields inner toBody s rest) :
    Yields (forLoop inner place) mid (.forLoop place init check step s) rest := by
  have hinit : Yields (unlessAt .semicolon simple) next init afterInit :=
    unlessAt_yields hinit hinitClose (fun _ _ _ h => SimpleForm.headOf_ne h (.inl rfl))
      (fun _ _ _ => clause_yields (.inl rfl))
  have hcheck : Yields (unlessAt .semicolon expr) toCheck check afterCheck :=
    unlessAt_yields hcheck hcheckClose (fun _ _ _ h => h.headOf_ne rfl)
      (fun _ _ _ h hrest => h.yields (EndsExpr.of_headOf hrest rfl))
  have hstep : Yields (unlessAt .parenClose simple) toStep step afterStep :=
    unlessAt_yields hstep hstepClose (fun _ _ _ h => SimpleForm.headOf_ne h (.inr rfl))
      (fun _ _ _ => clause_yields (.inr rfl))
  refine .require hopen (.bind hinit (.require hinitClose (.bind hcheck ?_)))
  exact .require hcheckClose (.bind hstep (.require hstepClose (.bind hbody .pure)))

end

/-- If the budget suffices, the rule for statements reads this, unless an `else` is behind an open
statement. -/
def IsReadStmt : Form SourceStmt := fun ls s rest =>
  ∀ budget, ls.length ≤ budget → (s.isOpen = true → NoElse rest) →
    Yields (stmtRuleAt budget) ls s rest

/-- The rule for statements reads the statements of a block. -/
theorem readsStmts_of_isRead {item : Form SourceStmt} {budget : Nat}
    (h : ∀ ls s rest, item ls s rest → IsReadStmt ls s rest) :
    ReadsStmts (stmtRuleAt budget) item budget :=
  fun _ _ _ hitem hrest hbound => h _ _ _ hitem budget hbound fun _ => hrest

theorem IsReadStmt.of_rule {s : SourceStmt} (hbehind : IsBehind rest ls)
    (h : ∀ budget, ls.length ≤ budget + 1 → (s.isOpen = true → NoElse rest) →
      Yields (stmtRule (stmtRuleAt budget)) ls s rest) : IsReadStmt ls s rest := by
  intro budget hbudget hrest
  have hlength := hbehind.length_lt
  obtain ⟨budget, rfl⟩ : ∃ fewer, budget = fewer + 1 := ⟨budget - 1, by omega⟩
  exact h budget hbudget hrest

/-- A statement that starts with a reserved word. -/
theorem IsReadStmt.of_keyword {s : SourceStmt} {keyword : Keyword}
    (hword : Takes keyword.token ls mid) (hmid : rest <:+ mid)
    (h : ∀ budget, mid.length ≤ budget → (s.isOpen = true → NoElse rest) →
      Yields (keywordStmt (stmtRuleAt budget) (placeOf ls) keyword) ls s rest) :
    IsReadStmt ls s rest := by
  apply IsReadStmt.of_rule (hword.isBehind.of_suffix_left hmid)
  intro budget hbudget hrest
  have hlength := hword.isBehind.length_lt
  exact stmtRule_keyword hword (h budget (by omega) hrest)

theorem Sentence.isReadStmt {s : SourceStmt} (h : Sentence ls s rest) : IsReadStmt ls s rest := by
  induction h with
  | empty hclose =>
    refine .of_rule hclose.isBehind fun budget _ _ => .here (.peek ?_)
    rw [hclose.headOf_eq]
    exact .skip hclose .pure
  | simple hsimple hclose =>
    have hbehind := hclose.isBehind.trans (SimpleForm.isBehind hsimple)
    exact .of_rule hbehind fun budget _ _ => stmtRule_simple hsimple hclose
  | block hitem hblock ih =>
    have hbehind := hblock.isBehind fun _ _ _ h => (hitem _ _ _ h).isBehind
    refine .of_rule hbehind fun budget hbudget _ => .here (.peek ?_)
    have hread := block_yields (readsStmts_of_isRead ih) hitem hblock hbudget
    obtain ⟨hopen, -, -⟩ := hblock
    rw [hopen.headOf_eq]
    exact hread
  | function hword hname hopen hparameters hitem hbody ih =>
    have hbehind := hbody.isBehind fun _ _ _ h => (hitem _ _ _ h).isBehind
    have hlist := (hparameters.isBehind fun _ _ _ h => h.1.isBehind).trans
      (hopen.isBehind.trans hname.1.isBehind)
    apply IsReadStmt.of_keyword hword (hbehind.trans hlist).suffix
    intro budget hbudget _
    exact .skip hword (functionDeclaration_yields (readsStmts_of_isRead ih) hitem hname hopen
      hparameters hbody (hlist.length_lt.le.trans hbudget))
  | result hword hvalue =>
    apply IsReadStmt.of_keyword hword hvalue.isBehind.suffix
    intro budget _ _
    exact .skip hword (.bind (exprSemicolon_yields hvalue) .pure)
  | branch hword htest hyes ih =>
    apply IsReadStmt.of_keyword hword (hyes.isBehind.trans htest.isBehind).suffix
    intro budget hbudget hrest
    have helse := hrest rfl
    have hread := ih budget (htest.isBehind.length_lt.le.trans hbudget) fun _ => helse
    refine .skip hword (.bind (parenthesized_yields htest) (.bind hread ?_))
    exact .refuse helse .pure
  | branchElse hword htest hyes hclosed helse hno ihyes ihno =>
    have hafter := hyes.isBehind.trans htest.isBehind
    have hbehind := helse.isBehind.trans hafter
    apply IsReadStmt.of_keyword hword (hno.isBehind.trans hbehind).suffix
    intro budget hbudget hrest
    have hreadYes := ihyes budget (htest.isBehind.length_lt.le.trans hbudget)
      fun hopen => absurd (hclosed.symm.trans hopen) Bool.false_ne_true
    have hreadNo := ihno budget (hbehind.length_lt.le.trans hbudget) hrest
    refine .skip hword (.bind (parenthesized_yields htest) (.bind hreadYes ?_))
    exact .accept helse (.bind hreadNo .pure)
  | @forLoop ls mid next afterInit toCheck afterCheck toStep afterStep toBody rest init
      check step body
      hword hopen hinit hinitClose hcheck hcheckClose hstep hstepClose hbody ih =>
    have htoCheck := hinitClose.isBehind.of_suffix (hinit.suffix fun _ _ _ => SimpleForm.isBehind)
    have htoStep := hcheckClose.isBehind.of_suffix (hcheck.suffix fun _ _ _ => Phrase.isBehind)
    have htoBody := hstepClose.isBehind.of_suffix (hstep.suffix fun _ _ _ => SimpleForm.isBehind)
    have hbehind := ((htoBody.trans htoStep).trans htoCheck).trans hopen.isBehind
    apply IsReadStmt.of_keyword hword (hbody.isBehind.trans hbehind).suffix
    intro budget hbudget hrest
    have hread := ih budget (hbehind.length_lt.le.trans hbudget) hrest
    exact .skip hword
      (forLoop_yields hopen hinit hinitClose hcheck hcheckClose hstep hstepClose hread)
  | foreach hword hopen hname hamong hiterable hclose hbody ih =>
    have hitems := (hamong.isBehind.trans hname.1.isBehind).trans hopen.isBehind
    have hbehind := (hclose.isBehind.trans hiterable.isBehind).trans hitems
    apply IsReadStmt.of_keyword hword (hbody.isBehind.trans hbehind).suffix
    intro budget hbudget hrest
    have hread := ih budget (hbehind.length_lt.le.trans hbudget) hrest
    refine .skip hword (.require hopen (.bind (name_yields _ hname) (.requireWord hamong ?_)))
    refine .bind (hiterable.yields (hclose.endsExpr rfl)) (.require hclose (.bind hread .pure))
  | whileLoop hword htest hbody ih =>
    apply IsReadStmt.of_keyword hword (hbody.isBehind.trans htest.isBehind).suffix
    intro budget hbudget hrest
    have hread := ih budget (htest.isBehind.length_lt.le.trans hbudget) hrest
    exact .skip hword (.bind (parenthesized_yields htest) (.bind hread .pure))
  | doWhile hword hbody hwhile htest hclose ih =>
    have hafter := hwhile.isBehind.trans hbody.isBehind
    have hbehind := (hclose.isBehind.trans htest.isBehind).trans hafter
    apply IsReadStmt.of_keyword hword hbehind.suffix
    intro budget hbudget _
    have hread := ih budget hbudget fun _ => by
      rw [NoElse, hwhile.headOf_eq]
      decide
    refine .skip hword (.bind hread (.requireWord hwhile ?_))
    exact .bind (parenthesized_yields htest) (.require hclose .pure)
  | text hword hvalue =>
    apply IsReadStmt.of_keyword hword hvalue.isBehind.suffix
    intro budget _ _
    exact .skip hword (.bind (exprSemicolon_yields hvalue) .pure)
  | attachment hword hvalue =>
    apply IsReadStmt.of_keyword hword hvalue.isBehind.suffix
    intro budget _ _
    exact .skip hword (.bind (exprSemicolon_yields hvalue) .pure)
  | embed hword hparts =>
    apply IsReadStmt.of_keyword hword hparts.isBehind.suffix
    intro budget _ _
    exact .skip hword (embed_yields hparts)

/-! ## Templates -/

theorem item_yields {i : SourceItem} (h : ItemForm ls i rest) (hrest : NoElse rest) :
    Yields Parser.item ls i rest := by
  cases h with
  | constant hword hname hassign hvalue =>
    refine .here (.accept hword (.bind (name_yields _ hname) (.require hassign ?_)))
    exact .bind (exprSemicolon_yields hvalue) .pure
  | stmt hstmt =>
    have hread := Sentence.isReadStmt hstmt _ (Nat.le_succ _) fun _ => hrest
    refine .here (.refuse (Token.ne_of_startsStmt hstmt.startsStmt rfl) ?_)
    exact .bind (.bounded hread) .pure

theorem ItemForm.starts {i : SourceItem} (h : ItemForm ls i rest) :
    NoElse ls ∧ headOf ls ≠ .endOfInput := by
  cases h with
  | constant hword _ _ _ =>
    rw [NoElse, hword.headOf_eq]
    decide
  | stmt hstmt =>
    have hstart := hstmt.startsStmt
    exact ⟨Token.ne_of_startsStmt hstart rfl, Token.ne_of_startsStmt hstart rfl⟩

end

end Parser

/-- A text is read as a template exactly if its tokens have the form of the template. -/
theorem parseTemplate_eq_ok_iff {source : String} {items : SourceTemplate} :
    parseTemplate source = .ok items ↔ TemplateForm (lexemes source) items := by
  refine ⟨(parseTemplate_gives source).1 items, ?_⟩
  rintro ⟨hitems, hend⟩
  have hreads : Parser.ReadsAll Parser.item ItemForm Parser.NoElse (lexemes source).length :=
    fun _ _ _ h hrest _ => Parser.item_yields h hrest
  have hread : Parser.Yields (Parser.untilEndWithin Parser.item ((lexemes source).length + 1))
      (lexemes source) items _ :=
    Parser.untilEndWithin_yields hreads
      (fun _ _ _ => ItemForm.isBehind) (fun _ _ _ h => (Parser.ItemForm.starts h).2)
      (fun _ _ _ h => (Parser.ItemForm.starts h).1) hitems
        (by rw [Parser.NoElse, hend]; decide) hend
      le_rfl (Nat.lt_succ_self _)
  have hparse : parseTemplate source = (Parser.untilEndWithin Parser.item
      ((lexemes source).length + 1) (lexemes source)).map Prod.fst := rfl
  rw [hparse, hread]
  rfl

end MessageTemplate
