import MessageTemplate.Proofs.Grammar.RoundTrip
import MessageTemplate.Proofs.Token.Division

/-!
# What is read is a way to write its tree

A form takes the tokens in front of a list one by one. The row of the tokens
taken is one of the rows in which the value of the form can be written
(`Retraces`), from a single node to a whole template. So the tokens of a text
that is read are a row of its tree: none is passed over, taken twice or made up.
-/

namespace MessageTemplate

variable {P : Type}

/-! ## The tokens that are taken -/

/-- The tokens that a template is written with. -/
def Token.isProper : Token → Bool
  | .unknown _ | .unterminated _ | .endOfInput => false
  | _ => true

theorem Literal.isProper_token (value : Literal) : value.token.isProper = true := by
  cases value with
  | bool value => cases value <;> rfl
  | _ => rfl

/-- The tokens of the row stand in front of `rest`, and they are proper ones. -/
structure Spans (row : List Token) (ls rest : List Lexeme) : Prop where
  inFront : Row row ls rest
  proper : ∀ token ∈ row, token.isProper = true

namespace Spans

variable {token : Token} {row first second : List Token} {ls mid rest : List Lexeme}

theorem nil : Spans [] ls ls := ⟨.nil, by simp⟩

theorem cons (htoken : Takes token ls mid) (hrow : Spans row mid rest)
    (hproper : token.isProper = true) : Spans (token :: row) ls rest :=
  ⟨.cons htoken hrow.inFront, List.forall_mem_cons.2 ⟨hproper, hrow.proper⟩⟩

theorem single (htoken : Takes token ls rest) (hproper : token.isProper = true) :
    Spans [token] ls rest :=
  .cons htoken .nil hproper

theorem append (hfirst : Spans first ls mid) (hsecond : Spans second mid rest) :
    Spans (first ++ second) ls rest := by
  refine ⟨?_, List.forall_mem_append.2 ⟨hfirst.proper, hsecond.proper⟩⟩
  have hrow := hfirst.inFront
  clear hfirst
  induction hrow with
  | nil => exact hsecond.inFront
  | cons htoken _ ih => exact .cons htoken (ih hsecond)

/-- One more token. -/
theorem concat (hrow : Spans row ls mid) (htoken : Takes token mid rest)
    (hproper : token.isProper = true) : Spans (row ++ [token]) ls rest :=
  hrow.append (.single htoken hproper)

/-- The row between two symbols. -/
theorem between {next : List Lexeme} {start stop : Symbol} (hopen : Takes (.symbol start) ls mid)
    (hrow : Spans row mid next) (hclose : Takes (.symbol stop) next rest) :
    Spans (.symbol start :: (row ++ [.symbol stop])) ls rest :=
  .cons hopen (hrow.concat hclose rfl) rfl

theorem tokens_eq (h : Spans row ls rest) :
    ls.map Lexeme.token = row ++ rest.map Lexeme.token := by
  have hrow := h.inFront
  clear h
  induction hrow with
  | nil => rfl
  | cons htoken _ ih =>
    obtain ⟨place, rfl⟩ := htoken
    rw [List.map_cons, ih, List.cons_append]

end Spans

/-- The tokens that a form takes are a way to write its value. -/
def Retraces {α : Type} (form : Form α) (written : α → List Token → Prop) : Prop :=
  ∀ ls value rest, form ls value rest → ∃ row, Spans row ls rest ∧ written value row

/-! ## Lists -/

section

variable {α : Type} {form : Form α} {written : α → List Token → Prop} {ls rest : List Lexeme}

theorem Separated.retraces (h : Retraces form written) :
    Retraces (Separated form) fun values row =>
      values ≠ [] ∧ ∃ rows, List.Forall₂ written values rows ∧ row = commaRow rows := by
  intro ls values rest hitems
  induction hitems with
  | one hitem =>
    obtain ⟨row, hspans, hrow⟩ := h _ _ _ hitem
    exact ⟨row, hspans, by simp, [row], .cons hrow .nil, by simp [commaRow]⟩
  | more hitem hcomma _ ih =>
    obtain ⟨row, hspans, hrow⟩ := h _ _ _ hitem
    obtain ⟨_, hmore, hne, rows, hrows, rfl⟩ := ih
    refine ⟨_, hspans.append (.cons hcomma hmore rfl), by simp, row :: rows, .cons hrow hrows, ?_⟩
    cases hrows with
    | nil => exact absurd rfl hne
    | cons _ _ => simp [commaRow]

theorem Listed.retraces (h : Retraces form written) (close : Symbol) :
    Retraces (Listed form close) fun values row =>
      ∃ rows, List.Forall₂ written values rows ∧ row = commaRow rows ++ [.symbol close] := by
  intro ls values rest hitems
  cases hitems with
  | none hclose => exact ⟨_, .single hclose rfl, [], .nil, rfl⟩
  | some hitems hclose =>
    obtain ⟨_, hspans, -, rows, hrows, rfl⟩ := Separated.retraces h _ _ _ hitems
    exact ⟨_, hspans.concat hclose rfl, rows, hrows, rfl⟩

theorem Repeated.retraces (h : Retraces form written) :
    Retraces (Repeated form) fun values row =>
      ∃ rows, List.Forall₂ written values rows ∧ row = rows.flatten := by
  intro ls values rest hitems
  induction hitems with
  | done => exact ⟨_, .nil, [], .nil, rfl⟩
  | more hitem _ ih =>
    obtain ⟨row, hspans, hrow⟩ := h _ _ _ hitem
    obtain ⟨_, hmore, rows, hrows, rfl⟩ := ih
    exact ⟨_, hspans.append hmore, row :: rows, .cons hrow hrows, rfl⟩

theorem Following.retraces (h : Retraces form written) :
    Retraces (Following form) fun value row =>
      ∃ rows, List.Forall₂ written value.toList rows ∧
        row = rows.flatMap fun row => .symbol .comma :: row := by
  intro ls value rest hfollowing
  cases hfollowing with
  | none => exact ⟨_, .nil, [], .nil, rfl⟩
  | some hcomma hitem =>
    obtain ⟨row, hspans, hrow⟩ := h _ _ _ hitem
    exact ⟨_, .cons hcomma hspans rfl, [row], .cons hrow .nil, by simp⟩

theorem Optional.retraces (h : Retraces form written) :
    Retraces (Optional form) (OptionalWritten written) := by
  intro ls value rest hoptional
  cases hoptional with
  | none => exact ⟨_, .nil, .none⟩
  | some hitem =>
    obtain ⟨row, hspans, hrow⟩ := h _ _ _ hitem
    exact ⟨row, hspans, .some hrow⟩

variable {entry : String → Form α} {word : α → String}

/-- The entries of an object, with a comma behind the last one or without. -/
theorem Entries.retraces
    (h : ∀ name, Retraces (entry name) fun value row => word value = name ∧ written value row) :
    Retraces (Entries entry) fun values row =>
      ∃ rows, List.Forall₂ (EntryWritten word written) values rows ∧
        (row = commaRow rows ∨ values ≠ [] ∧ row = commaRow rows ++ [.symbol .comma]) := by
  intro ls values rest hentries
  induction hentries with
  | none => exact ⟨_, .nil, [], .nil, .inl rfl⟩
  | last hword hcolon hentry =>
    obtain ⟨row, hspans, rfl, hrow⟩ := h _ _ _ _ hentry
    exact ⟨_, .cons hword (.cons hcolon hspans rfl) rfl, [_], .cons ⟨hrow⟩ .nil,
      .inl (by simp [commaRow, entryRow])⟩
  | more hword hcolon hentry hcomma hmore ih =>
    obtain ⟨row, hspans, rfl, hrow⟩ := h _ _ _ _ hentry
    obtain ⟨tail, htail, rows, hrows, hcases⟩ := ih
    refine ⟨_, .cons hword (.cons hcolon (hspans.append (.cons hcomma htail rfl)) rfl) rfl, _,
      .cons ⟨hrow⟩ hrows, ?_⟩
    cases hrows with
    | nil =>
      obtain rfl : tail = [] := hcases.elim id fun hcase => absurd rfl hcase.1
      exact .inr ⟨by simp, by simp [commaRow, entryRow]⟩
    | cons _ _ =>
      rcases hcases with rfl | ⟨-, rfl⟩
      · exact .inl (by simp [commaRow, entryRow])
      · exact .inr ⟨by simp, by simp [commaRow, entryRow]⟩

theorem ObjectForm.retraces
    (h : ∀ name, Retraces (entry name) fun value row => word value = name ∧ written value row) :
    Retraces (ObjectForm entry) (ObjectWritten (EntryWritten word written)) := by
  rintro ls values rest ⟨hopen, hentries, hclose⟩
  obtain ⟨_, hspans, rows, hrows, rfl | ⟨hne, rfl⟩⟩ := Entries.retraces h _ _ _ hentries
  · exact ⟨_, .between hopen hspans hclose, .plain hrows⟩
  · refine ⟨_, .between hopen hspans hclose, ?_⟩
    rw [List.append_assoc]
    exact .trailing hne hrows

end

/-! ## Expressions -/

theorem Phrase.retraces (level : Nat) : Retraces (Phrase level) (Expr.Written level) := by
  intro ls value rest hphrase
  induction hphrase with
  | literal value htoken =>
    exact ⟨_, .single htoken value.isProper_token, .literal _ value⟩
  | var hname hfree => exact ⟨_, .single hname rfl, .var _ _⟩
  | list hopen hitem hitems ih =>
    obtain ⟨_, hspans, rows, hrows, rfl⟩ := Listed.retraces ih _ _ _ _ hitems
    exact ⟨_, .cons hopen hspans rfl, .list _ (fun _ _ h => h) hrows⟩
  | call hname hfree hopen hitem hitems ih =>
    obtain ⟨_, hspans, rows, hrows, rfl⟩ := Listed.retraces ih _ _ _ _ hitems
    exact ⟨_, .cons hname (.cons hopen hspans rfl) rfl, .call _ _ (fun _ _ h => h) hrows⟩
  | paren hopen hvalue hclose ih =>
    obtain ⟨_, hspans, hrow⟩ := ih
    exact ⟨_, .between hopen hspans hclose, .paren hrow⟩
  | unary op hop hoperand ih =>
    obtain ⟨_, hspans, hrow⟩ := ih
    exact ⟨_, .cons hop hspans rfl, .unary _ op le_rfl hrow⟩
  | binary op hleft hop hright ihleft ihright =>
    obtain ⟨_, hfirst, hleft⟩ := ihleft
    obtain ⟨_, hsecond, hright⟩ := ihright
    exact ⟨_, hfirst.append (.cons hop hsecond rfl), .binary _ op le_rfl hleft hright⟩
  | loosen hvalue ih =>
    obtain ⟨_, hspans, hrow⟩ := ih
    exact ⟨_, hspans, hrow.mono (Nat.le_succ _)⟩

theorem Whole.retraces : Retraces Whole (Expr.Written Level.whole) := Phrase.retraces Level.whole

/-! ## Parts of an embed -/

theorem AuthorFlowForm.retraces :
    Retraces AuthorFlowForm fun values => FlowWritten values.exprs := by
  intro ls values rest hflow
  cases hflow with
  | name hname =>
    obtain ⟨row, hspans, hrow⟩ := Whole.retraces _ _ _ hname
    have hwritten := FlowWritten.mk (.cons hrow .nil)
    rw [commaRow_cons, List.flatMap_nil, List.append_nil] at hwritten
    exact ⟨row, hspans, hwritten⟩
  | url hname hurl hicon =>
    obtain ⟨_, hspans, hrow⟩ := Whole.retraces _ _ _ hname
    obtain ⟨_, hspansUrl, urls, hurls, rfl⟩ := Following.retraces Whole.retraces _ _ _ hurl
    obtain ⟨_, hspansIcon, icons, hicons, rfl⟩ := Following.retraces Whole.retraces _ _ _ hicon
    have hwritten := FlowWritten.mk (.cons hrow (List.rel_append hurls hicons))
    rw [commaRow_cons, List.flatMap_append] at hwritten
    exact ⟨_, hspans.append (hspansUrl.append hspansIcon), hwritten⟩

theorem FooterFlowForm.retraces :
    Retraces FooterFlowForm fun values => FlowWritten values.exprs := by
  rintro ls _ rest ⟨htext, hicon⟩
  obtain ⟨_, hspans, hrow⟩ := Whole.retraces _ _ _ htext
  obtain ⟨_, hspansIcon, icons, hicons, rfl⟩ := Following.retraces Whole.retraces _ _ _ hicon
  have hwritten := FlowWritten.mk (.cons hrow hicons)
  rw [commaRow_cons] at hwritten
  exact ⟨_, hspans.append hspansIcon, hwritten⟩

theorem SectionForm.retraces {F K : Type} {ofWord? : String → Option K} {word : K → String}
    {flow : Form F} {written : F → List Token → Prop} (hflow : Retraces flow written)
    (hword : ∀ name key, ofWord? name = some key → word key = name) :
    Retraces (SectionForm ofWord? flow) fun body row => body.2.Written word written body.1 row := by
  intro ls body rest hbody
  cases hbody with
  | property hdot hname hkey hmode hvalue =>
    obtain ⟨_, hspans, hrow⟩ := Whole.retraces _ _ _ hvalue
    obtain rfl := hword _ _ hkey
    exact ⟨_, .cons hdot (.cons hname (.cons hmode hspans rfl) rfl) rfl, .property hrow⟩
  | object hmode hentries =>
    have hentry : ∀ name, Retraces (KeyedForm ofWord? name) fun (entry : K × SourceExpr) row =>
        word entry.1 = name ∧ entry.2.Written Level.whole row := by
      rintro name ls entry rest ⟨hkey, hvalue⟩
      obtain ⟨row, hspans, hrow⟩ := Whole.retraces _ _ _ hvalue
      exact ⟨row, hspans, hword _ _ hkey, hrow⟩
    obtain ⟨_, hspans, hrow⟩ := ObjectForm.retraces hentry _ _ _ hentries
    exact ⟨_, .cons hmode hspans rfl, .object hrow⟩
  | flow hmode hvalues =>
    obtain ⟨_, hspans, hrow⟩ := hflow _ _ _ hvalues
    exact ⟨_, .cons hmode hspans rfl, .flow hrow⟩

theorem SettingForm.retraces (name : String) :
    Retraces (SettingForm name) fun setting row => setting.word = name ∧ setting.Written row := by
  intro ls setting rest hsetting
  cases hsetting with
  | title hvalue =>
    obtain ⟨row, hspans, hrow⟩ := Whole.retraces _ _ _ hvalue
    exact ⟨row, hspans, rfl, .title hrow⟩
  | text hvalue =>
    obtain ⟨row, hspans, hrow⟩ := Whole.retraces _ _ _ hvalue
    exact ⟨row, hspans, rfl, .text hrow⟩
  | inline value hvalue =>
    exact ⟨_, .single hvalue (Literal.bool value).isProper_token, rfl, .inline value⟩

theorem InlineForm.retraces : Retraces InlineForm fun inline row => row = inlineRow inline := by
  intro ls inline rest hinline
  cases hinline with
  | plain => exact ⟨_, .nil, rfl⟩
  | marked hcomma hword => exact ⟨_, .cons hcomma (.single hword rfl) rfl, rfl⟩

theorem FlowForm.retraces :
    Retraces FlowForm fun flow row => FieldFlowWritten flow.1 flow.2.1 flow.2.2 row := by
  rintro ls _ rest ⟨htitle, hcomma, htext, hinline⟩
  obtain ⟨_, hspansTitle, hrowTitle⟩ := Whole.retraces _ _ _ htitle
  obtain ⟨_, hspansText, hrowText⟩ := Whole.retraces _ _ _ htext
  obtain ⟨_, hspansInline, rfl⟩ := InlineForm.retraces _ _ _ hinline
  exact ⟨_, hspansTitle.append (.cons hcomma (hspansText.append hspansInline) rfl),
    hrowTitle, hrowText⟩

theorem FieldForm.retraces : Retraces FieldForm FieldSpec.Written := by
  intro ls field rest hfield
  cases hfield with
  | object hsettings =>
    obtain ⟨row, hspans, hrow⟩ := ObjectForm.retraces SettingForm.retraces _ _ _ hsettings
    exact ⟨row, hspans, .object hrow⟩
  | tuple hopen hflow hclose =>
    obtain ⟨_, hspans, hrow⟩ := FlowForm.retraces _ _ _ hflow
    exact ⟨_, .between hopen hspans hclose, .tuple hrow⟩
  | flow hflow =>
    obtain ⟨row, hspans, hrow⟩ := FlowForm.retraces _ _ _ hflow
    exact ⟨row, hspans, .flow hrow⟩

theorem FieldsForm.retraces :
    Retraces FieldsForm fun written row => written.2.Written written.1 row := by
  intro ls written rest hfields
  cases hfields with
  | property hdot hword hmode hsetting =>
    obtain ⟨_, hspans, rfl, hrow⟩ := SettingForm.retraces _ _ _ _ hsetting
    exact ⟨_, .cons hdot (.cons hword (.cons hmode hspans rfl) rfl) rfl, .property hrow⟩
  | list hmode hopen hfields hclose =>
    obtain ⟨_, hspans, -, rows, hrows, rfl⟩ := Separated.retraces FieldForm.retraces _ _ _ hfields
    exact ⟨_, .cons hmode (.between hopen hspans hclose) rfl, .list hrows⟩
  | part hmode hhead hfield =>
    obtain ⟨row, hspans, hrow⟩ := FieldForm.retraces _ _ _ hfield
    refine ⟨_, .cons hmode hspans rfl, .part hrow fun hbracket => hhead ?_⟩
    rw [hspans.inFront.head?_eq hrow.ne_nil] at hbracket
    exact Option.some.inj hbracket

theorem EmbedMember.name_of_ofName? {name : String} {key : EmbedMember}
    (h : EmbedMember.ofName? name = some key) : key.name = name := by
  simpa using List.find?_some h

theorem AuthorKey.word_of_ofWord? (name : String) (key : AuthorKey)
    (h : AuthorKey.ofWord? name = some key) : key.word = name := by
  simpa using List.find?_some h

theorem FooterKey.word_of_ofWord? (name : String) (key : FooterKey)
    (h : FooterKey.ofWord? name = some key) : key.word = name := by
  simpa using List.find?_some h

theorem EmbedPartForm.retraces : Retraces EmbedPartForm EmbedPart.Written := by
  rintro ls _ rest ⟨hword, hbody, hsemicolon⟩
  cases hbody with
  | member hkey hassign hvalue =>
    obtain ⟨_, hspans, hrow⟩ := Whole.retraces _ _ _ hvalue
    obtain rfl := EmbedMember.name_of_ofName? hkey
    exact ⟨_, (Spans.cons hword (.cons hassign hspans rfl) rfl).concat hsemicolon rfl,
      ⟨.member hrow⟩⟩
  | author hsection =>
    obtain ⟨_, hspans, hrow⟩ :=
      SectionForm.retraces AuthorFlowForm.retraces AuthorKey.word_of_ofWord? _ _ _ hsection
    exact ⟨_, (Spans.cons hword hspans rfl).concat hsemicolon rfl, ⟨.author hrow⟩⟩
  | footer hsection =>
    obtain ⟨_, hspans, hrow⟩ :=
      SectionForm.retraces FooterFlowForm.retraces FooterKey.word_of_ofWord? _ _ _ hsection
    exact ⟨_, (Spans.cons hword hspans rfl).concat hsemicolon rfl, ⟨.footer hrow⟩⟩
  | fields hname hfields =>
    obtain ⟨_, hspans, hrow⟩ := FieldsForm.retraces _ _ _ hfields
    exact ⟨_, (Spans.cons hword hspans rfl).concat hsemicolon rfl, ⟨.fields hname hrow⟩⟩

/-! ## Statements -/

theorem SimpleForm.retraces : Retraces SimpleForm Stmt.ClauseWritten := by
  intro ls s rest hsimple
  cases hsimple with
  | assign hname hfree hassign hvalue =>
    obtain ⟨_, hspans, hrow⟩ := Whole.retraces _ _ _ hvalue
    exact ⟨_, .cons hname (.cons hassign hspans rfl) rfl, .assign hrow⟩
  | expr hvalue =>
    obtain ⟨row, hspans, hrow⟩ := Whole.retraces _ _ _ hvalue
    exact ⟨row, hspans, .expr hrow⟩

theorem NameForm.retraces : Retraces NameForm fun name row => row = [.ident name] := by
  rintro ls name rest ⟨hname, -⟩
  exact ⟨_, .single hname rfl, rfl⟩

theorem ClosedForm.retraces : Retraces ClosedForm ClosedWritten := by
  rintro ls _ rest ⟨hvalue, hclose⟩
  obtain ⟨_, hspans, hrow⟩ := Whole.retraces _ _ _ hvalue
  exact ⟨_, hspans.concat hclose rfl, ⟨hrow⟩⟩

theorem ConditionForm.retraces : Retraces ConditionForm ConditionWritten := by
  rintro ls _ rest ⟨hopen, hvalue, hclose⟩
  obtain ⟨_, hspans, hrow⟩ := Whole.retraces _ _ _ hvalue
  exact ⟨_, .between hopen hspans hclose, ⟨hrow⟩⟩

theorem PartsForm.retraces : Retraces PartsForm PartsWritten := by
  intro ls parts rest hparts
  cases hparts with
  | single hdot hpart =>
    obtain ⟨_, hspans, hrow⟩ := EmbedPartForm.retraces _ _ _ hpart
    exact ⟨_, .cons hdot hspans rfl, .single hrow⟩
  | braces hopen hparts hclose =>
    obtain ⟨_, hspans, rows, hrows, rfl⟩ := Repeated.retraces EmbedPartForm.retraces _ _ _ hparts
    exact ⟨_, .between hopen hspans hclose, .braces hrows⟩

theorem BlockForm.retraces {item : Form SourceStmt} (h : Retraces item Stmt.Written) :
    Retraces (BlockForm item) Stmt.Written := by
  rintro ls _ rest ⟨hopen, hbody, hclose⟩
  obtain ⟨_, hspans, rows, hrows, rfl⟩ := Repeated.retraces h _ _ _ hbody
  exact ⟨_, .between hopen hspans hclose, .block _ (fun _ _ h => h) hrows⟩

/-- The names of parameters are written one by one. -/
theorem commaRow_of_names {names : List String} {rows : List (List Token)}
    (h : List.Forall₂ (fun name row => row = [Token.ident name]) names rows) :
    rows = names.map fun name => [.ident name] := by
  induction h with
  | nil => rfl
  | cons hrow _ ih => rw [hrow, ih, List.map_cons]

theorem Sentence.retraces : Retraces Sentence Stmt.Written := by
  intro ls s rest h
  induction h with
  | empty hclose => exact ⟨_, .single hclose rfl, .empty _⟩
  | simple hsimple hclose =>
    obtain ⟨_, hspans, hrow⟩ := SimpleForm.retraces _ _ _ hsimple
    exact ⟨_, hspans.concat hclose rfl, .clause hrow⟩
  | block hitem hblock ih => exact BlockForm.retraces ih _ _ _ hblock
  | function hword hname hopen hparameters hitem hbody ih =>
    obtain ⟨_, hspans, rows, hrows, rfl⟩ := Listed.retraces NameForm.retraces _ _ _ _ hparameters
    obtain ⟨_, hspansBody, hrowBody⟩ := BlockForm.retraces ih _ _ _ hbody
    obtain rfl := commaRow_of_names hrows
    have hspans := hspans.append hspansBody
    rw [List.append_assoc, List.singleton_append] at hspans
    exact ⟨_, .cons hword (.cons hname.1 (.cons hopen hspans rfl) rfl) rfl,
      .function _ _ _ _ hrowBody⟩
  | result hword hvalue =>
    obtain ⟨_, hspans, hrow⟩ := ClosedForm.retraces _ _ _ hvalue
    exact ⟨_, .cons hword hspans rfl, .result _ hrow⟩
  | branch hword htest hyes ih =>
    obtain ⟨_, hspansTest, hrowTest⟩ := ConditionForm.retraces _ _ _ htest
    obtain ⟨_, hspansYes, hrowYes⟩ := ih
    exact ⟨_, .cons hword (hspansTest.append hspansYes) rfl, .branch _ hrowTest hrowYes⟩
  | branchElse hword htest hyes hclosed helse hno ihyes ihno =>
    obtain ⟨_, hspansTest, hrowTest⟩ := ConditionForm.retraces _ _ _ htest
    obtain ⟨_, hspansYes, hrowYes⟩ := ihyes
    obtain ⟨_, hspansNo, hrowNo⟩ := ihno
    exact ⟨_, .cons hword (hspansTest.append (hspansYes.append (.cons helse hspansNo rfl))) rfl,
      .branchElse _ hrowTest hrowYes hrowNo⟩
  | forLoop hword hopen hinit hinitClose hcheck hcheckClose hstep hstepClose hbody ih =>
    obtain ⟨_, hspansInit, hrowInit⟩ := Optional.retraces SimpleForm.retraces _ _ _ hinit
    obtain ⟨_, hspansCheck, hrowCheck⟩ := Optional.retraces Whole.retraces _ _ _ hcheck
    obtain ⟨_, hspansStep, hrowStep⟩ := Optional.retraces SimpleForm.retraces _ _ _ hstep
    obtain ⟨_, hspansBody, hrowBody⟩ := ih
    have hspans := hspansInit.append (.cons hinitClose
      (hspansCheck.append (.cons hcheckClose
        (hspansStep.append (.cons hstepClose hspansBody rfl)) rfl)) rfl)
    exact ⟨_, .cons hword (.cons hopen hspans rfl) rfl,
      .forLoop _ hrowInit hrowCheck hrowStep hrowBody⟩
  | foreach hword hopen hname hamong hiterable hclose hbody ih =>
    obtain ⟨_, hspansItems, hrowItems⟩ := Whole.retraces _ _ _ hiterable
    obtain ⟨_, hspansBody, hrowBody⟩ := ih
    have hspans := Spans.cons hname.1
      (.cons hamong (hspansItems.append (.cons hclose hspansBody rfl)) rfl) rfl
    exact ⟨_, .cons hword (.cons hopen hspans rfl) rfl, .foreach _ _ hrowItems hrowBody⟩
  | whileLoop hword htest hbody ih =>
    obtain ⟨_, hspansTest, hrowTest⟩ := ConditionForm.retraces _ _ _ htest
    obtain ⟨_, hspansBody, hrowBody⟩ := ih
    exact ⟨_, .cons hword (hspansTest.append hspansBody) rfl, .whileLoop _ hrowTest hrowBody⟩
  | doWhile hword hbody hwhile htest hclose ih =>
    obtain ⟨_, hspansBody, hrowBody⟩ := ih
    obtain ⟨_, hspansTest, hrowTest⟩ := ConditionForm.retraces _ _ _ htest
    exact ⟨_, .cons hword (hspansBody.append (.cons hwhile (hspansTest.concat hclose rfl) rfl)) rfl,
      .doWhile _ hrowBody hrowTest⟩
  | text hword hvalue =>
    obtain ⟨_, hspans, hrow⟩ := ClosedForm.retraces _ _ _ hvalue
    exact ⟨_, .cons hword hspans rfl, .text _ hrow⟩
  | attachment hword hvalue =>
    obtain ⟨_, hspans, hrow⟩ := ClosedForm.retraces _ _ _ hvalue
    exact ⟨_, .cons hword hspans rfl, .attachment _ hrow⟩
  | embed hword hparts =>
    obtain ⟨_, hspans, hrow⟩ := PartsForm.retraces _ _ _ hparts
    exact ⟨_, .cons hword hspans rfl, .embed _ hrow⟩

/-! ## Templates -/

theorem ItemForm.retraces : Retraces ItemForm Item.Written := by
  intro ls i rest hitem
  cases hitem with
  | constant hword hname hassign hvalue =>
    obtain ⟨_, hspans, hrow⟩ := ClosedForm.retraces _ _ _ hvalue
    exact ⟨_, .cons hword (.cons hname.1 (.cons hassign hspans rfl) rfl) rfl,
      .constant _ _ hrow⟩
  | stmt hstmt =>
    obtain ⟨row, hspans, hrow⟩ := Sentence.retraces _ _ _ hstmt
    exact ⟨row, hspans, .stmt hrow⟩

/-- Only the last token of a text is a final one. -/
theorem eq_nil_of_suffix_lexemes {source : String} {last : Lexeme} {rest : List Lexeme}
    (h : last :: rest <:+ lexemes source) (hlast : last.token.isFinal = true) : rest = [] := by
  obtain ⟨before, hbefore⟩ := h
  obtain ⟨front, final, hfront, -, hnone⟩ := (divided_lexemesFrom [] source.toList).isFinal
  -- Otherwise this token stands in front of the last one.
  by_contra hne
  obtain ⟨init, other, rfl⟩ := (List.eq_nil_or_concat' rest).resolve_left hne
  have hsame : before ++ last :: init ++ [other] = front ++ [final] := by
    rw [List.append_assoc, List.cons_append]
    exact hbefore.trans hfront
  have hmem : last ∈ front := by
    rw [← (List.append_inj' hsame rfl).1]
    simp
  simp [hnone last hmem] at hlast

/-- A text that is read is read up to the token at its end. -/
theorem exists_template_run {source : String} {items : SourceTemplate}
    (h : parseTemplate source = .ok items) :
    ∃ place, Repeated ItemForm (lexemes source) items [⟨.endOfInput, place⟩] ∧
      Parser.template (lexemes source) = .ok (items, [⟨.endOfInput, place⟩]) := by
  have houtcome := Parser.untilEndWithin_reads Parser.item_reads (fun _ _ _ => ItemForm.isBehind)
    (lexemes_remain source) (Nat.lt_succ_self _)
  have hrun : Parser.template (lexemes source) =
      Parser.untilEndWithin Parser.item ((lexemes source).length + 1) (lexemes source) := rfl
  have hparse : parseTemplate source = (Parser.template (lexemes source)).map Prod.fst := rfl
  rw [Parser.Gives, ← hrun] at houtcome
  rw [hparse] at h
  generalize Parser.template (lexemes source) = result at houtcome h ⊢
  cases houtcome with
  | error => simp [Except.map] at h
  | ok hpost hrest =>
    obtain ⟨hitems, hend⟩ := hpost
    obtain rfl := Except.ok.inj h
    obtain ⟨last, rest, rfl, -⟩ := hrest.exists_cons
    obtain ⟨token, place⟩ := last
    obtain rfl : token = .endOfInput := hend
    obtain rfl := eq_nil_of_suffix_lexemes hrest.suffix rfl
    exact ⟨place, hitems, rfl⟩

/-- A text that is read ends with the end of the input, and the tokens in front of it are taken one
by one: they are a row of its tree, as the printed row is. No other texts are read than those that
have a row of a well-formed tree as their tokens, and they are read as that tree. -/
theorem parse_takes_every_token :
    (∀ source items, parseTemplate source = .ok items →
      ∃ row place, tokens source = row ++ [.endOfInput] ∧
        (∀ token ∈ row, token.isProper = true) ∧
        Parser.template (lexemes source) = .ok (items, [⟨.endOfInput, place⟩]) ∧
        TemplateWritten items row ∧ TemplateWritten items (items.flatMap Item.spelling)) ∧
      ∀ (source : String) (items : List (Item (Expr Literal P) P)) (row : List Token),
        WellFormedTemplate items → TemplateWritten items row →
        tokens source = row ++ [.endOfInput] →
        (parseTemplate source).map (List.map Item.erase) = .ok (items.map Item.erase) := by
  constructor
  · intro source items hparse
    obtain ⟨place, hitems, hrun⟩ := exists_template_run hparse
    obtain ⟨_, hspans, rows, hrows, rfl⟩ := Repeated.retraces ItemForm.retraces _ _ _ hitems
    have hwell : WellFormedTemplate items := fun i hi =>
      (isFrom_of_parseTemplate hparse i hi).wellFormed
    exact ⟨_, place, hspans.tokens_eq, hspans.proper, hrun, ⟨hrows⟩,
      templateWritten_spelling hwell⟩
  · intro source items row hwell hwritten htokens
    obtain ⟨out, hparse, herase⟩ := hwritten.exists_parse hwell htokens
    rw [hparse, ← herase]
    rfl

/-- A field whose title is a name. -/
def titledField : List (Item (Expr Literal Unit) Unit) :=
  [.stmt (.embed () [⟨(), .fields .replace (.part (.flow () (.var () "a") (.var () "b") true))⟩])]

/-- The field behind a dot, without the parentheses of its tuple, and with needless ones around its
title. -/
def looseRow : List Token :=
  [.ident "embed", .symbol .dot, .ident "field", .symbol .assign, .symbol .parenOpen, .ident "a",
    .symbol .parenClose, .symbol .comma, .ident "b", .symbol .comma, .ident "inline",
    .symbol .semicolon]

theorem templateWritten_looseRow : TemplateWritten titledField looseRow := by
  have hflow : FieldFlowWritten (P := Unit) (.var () "a") (.var () "b") true _ :=
    ⟨.paren (.var () "a"), .var () "b"⟩
  have hpart : EmbedPart.Written (P := Unit) ⟨(), .fields .replace (.part (.flow () _ _ _))⟩ _ :=
    ⟨.fields (.inl rfl) (.part (.flow hflow) (by simp))⟩
  exact .mk (.cons (.stmt (.embed () (.single hpart))) .nil)

theorem wellFormed_titledField : WellFormedTemplate titledField := by
  have hnames : ∀ word ∈ ["a", "b"], IsName word := by
    unfold IsName
    decide
  simp_all [titledField, WellFormedTemplate, Item.WellFormed, Stmt.WellFormed, Stmt.nodes,
    Stmt.Fits, PartBody.Fits, Stmt.exprs, EmbedPart.exprs, PartBody.exprs, FieldsBody.exprs,
    FieldSpec.exprs, Expr.WellFormed, Expr.nodes, Expr.Fits]

theorem tokens_looseRow :
    tokens "embed . field = ( a ) , b , inline ;" = looseRow ++ [.endOfInput] := by
  have htext : spell looseRow = "embed . field = ( a ) , b , inline ;" := by decide +kernel
  rw [← htext]
  apply tokens_spell
  simp only [looseRow, List.forall_mem_cons, List.not_mem_nil, false_implies, implies_true,
    and_true, stable_symbol, true_and]
  exact ⟨stable_ident rfl, stable_ident rfl, stable_ident rfl, stable_ident rfl, stable_ident rfl⟩

theorem parse_takes_every_token_looseRow :
    ∃ items row, parseTemplate "embed . field = ( a ) , b , inline ;" = .ok items ∧
      items.map Item.erase = titledField.map Item.erase ∧
      tokens "embed . field = ( a ) , b , inline ;" = row ++ [.endOfInput] ∧
      TemplateWritten items row := by
  have hread := parse_takes_every_token.2 _ titledField looseRow wellFormed_titledField
    templateWritten_looseRow tokens_looseRow
  cases hparse : parseTemplate "embed . field = ( a ) , b , inline ;" with
  | error e =>
    rw [hparse] at hread
    cases hread
  | ok items =>
    rw [hparse] at hread
    obtain ⟨row, -, htokens, -, -, hwritten, -⟩ :=
      (parse_takes_every_token (P := Unit)).1 _ items hparse
    exact ⟨items, row, rfl, Except.ok.inj hread, htokens, hwritten⟩

end MessageTemplate
