import MessageTemplate.Proofs.Grammar.RoundTrip
import MessageTemplate.Proofs.Token.Layout

/-!
# The places of tokens decide nothing

The grammar looks at tokens and at how many of them are left, never at where
they stand. Run on the same tokens at other places, each rule reads the same but
for the places in it and leaves the same tokens, or gives up with the same fault
(`Alike`, for each rule). So texts with the same tokens have the same tree
without its places, or the same fault (`parseTemplate_congr`).
-/

namespace MessageTemplate

/-- The same tokens, maybe at other places. -/
def SameTokens (ls other : List Lexeme) : Prop := ls.map Lexeme.token = other.map Lexeme.token

namespace SameTokens

variable {first second : Lexeme} {ls other : List Lexeme}

theorem headOf_eq (h : SameTokens ls other) : headOf ls = headOf other := by
  have hhead := congrArg List.head? h
  rw [List.head?_map, List.head?_map] at hhead
  exact congrArg (Option.getD · Token.endOfInput) hhead

theorem tail (h : SameTokens ls other) : SameTokens ls.tail other.tail := by
  rw [SameTokens, List.map_tail, List.map_tail, h]

theorem length_eq (h : SameTokens ls other) : ls.length = other.length := by
  rw [← List.length_map, h, List.length_map]

theorem symm (h : SameTokens ls other) : SameTokens other ls := Eq.symm h

theorem of_cons (h : SameTokens (first :: ls) other) :
    ∃ place rest, other = ⟨first.token, place⟩ :: rest ∧ SameTokens ls rest := by
  obtain ⟨second, rest, rfl, hfirst, hrest⟩ := List.map_eq_cons_iff.1 h.symm
  exact ⟨second.position, rest, by rw [← hfirst], hrest.symm⟩

theorem of_two (h : SameTokens (first :: second :: ls) other) :
    ∃ place next rest, other = ⟨first.token, place⟩ :: ⟨second.token, next⟩ :: rest ∧
      SameTokens ls rest := by
  obtain ⟨place, _, rfl, hbehind⟩ := h.of_cons
  obtain ⟨next, rest, rfl, hrest⟩ := hbehind.of_cons
  exact ⟨place, next, rest, rfl, hrest⟩

end SameTokens

namespace Parser

/-- Two rules end in the same way: with values that are the same to `view` and the same tokens left,
or with the same fault. -/
inductive EndAlike {α γ : Type} (view : α → γ) :
    Except SyntaxError (α × List Lexeme) → Except SyntaxError (α × List Lexeme) → Prop
  | ok {value other : α} {ls rest : List Lexeme} (hview : view value = view other)
      (hrest : SameTokens ls rest) : EndAlike view (.ok (value, ls)) (.ok (other, rest))
  | error (fault : SyntaxFault) (place other : Position) :
      EndAlike view (.error ⟨fault, place⟩) (.error ⟨fault, other⟩)

/-- On the same tokens the two rules end alike, wherever the tokens stand. -/
def Similar {α γ : Type} (view : α → γ) (rule other : Parser α) : Prop :=
  ∀ ls rest, SameTokens ls rest → EndAlike view (rule ls) (other rest)

/-- On the same tokens the rule ends alike, wherever the tokens stand. -/
def Alike {α γ : Type} (view : α → γ) (rule : Parser α) : Prop := Similar view rule rule

variable {α β γ δ : Type} {view : α → γ} {sight : β → δ}

namespace Similar

theorem pure {value other : α} (h : view value = view other) :
    Similar view (Pure.pure value) (Pure.pure other) :=
  fun _ _ hsame => .ok h hsame

theorem bind {rule other : Parser α} {next more : α → Parser β} (h : Similar view rule other)
    (hnext : ∀ first second, view first = view second → Similar sight (next first) (more second)) :
    Similar sight (rule >>= next) (other >>= more) := by
  intro ls rest hsame
  rw [run_bind, run_bind]
  have hends := h ls rest hsame
  generalize rule ls = one at hends
  generalize other rest = two at hends
  cases hends with
  | ok hview hrest => exact hnext _ _ hview _ _ hrest
  | error fault place other => exact .error fault place other

/-- A value that has no places in it is the same on both sides. -/
theorem step {rule other : Parser α} {next more : α → Parser β} (h : Similar id rule other)
    (hnext : ∀ value, Similar sight (next value) (more value)) :
    Similar sight (rule >>= next) (other >>= more) := by
  refine h.bind fun first second heq => ?_
  obtain rfl : first = second := heq
  exact hnext first

theorem here {next more : Position → Parser β}
    (h : ∀ place other, Similar sight (next place) (more other)) :
    Similar sight (Parser.here >>= next) (Parser.here >>= more) :=
  fun ls rest hsame => h (placeOf ls) (placeOf rest) ls rest hsame

theorem peek {next more : Token → Parser β}
    (h : ∀ token, Similar sight (next token) (more token)) :
    Similar sight (Parser.peek >>= next) (Parser.peek >>= more) := by
  intro ls rest hsame
  rw [run_peek_bind, run_peek_bind, hsame.headOf_eq]
  exact h _ ls rest hsame

theorem get {next more : List Lexeme → Parser β}
    (h : ∀ ls rest, SameTokens ls rest → Similar sight (next ls) (more rest)) :
    Similar sight (MonadState.get >>= next) (MonadState.get >>= more) :=
  fun ls rest hsame => h ls rest hsame ls rest hsame

theorem set {next more : PUnit → Parser β} {ls rest : List Lexeme} (hsame : SameTokens ls rest)
    (h : Similar sight (next ⟨⟩) (more ⟨⟩)) :
    Similar sight (MonadStateOf.set ls >>= next) (MonadStateOf.set rest >>= more) :=
  fun _ _ _ => h ls rest hsame

theorem skip {next more : Unit → Parser β} (h : Similar sight (next ()) (more ())) :
    Similar sight (Parser.skip >>= next) (Parser.skip >>= more) :=
  fun _ _ hsame => h _ _ hsame.tail

theorem failAt (fault : SyntaxFault) (place other : Position) :
    Similar view (Parser.failAt place fault) (Parser.failAt other fault) :=
  fun _ _ _ => .error fault place other

theorem fail (fault : SyntaxFault) : Alike view (Parser.fail fault) :=
  here fun place other => failAt fault place other

theorem failExpecting (what : Expectation) : Alike view (Parser.failExpecting what) :=
  peek fun token => fail (.expected what token)

/-- An offer to take a token is accepted on both sides or on none. -/
theorem accept {token : Token} {next more : Bool → Parser β}
    (hyes : Similar sight (next true) (more true)) (hno : Similar sight (next false) (more false)) :
    Similar sight (Parser.accept token >>= next) (Parser.accept token >>= more) := by
  have haccept : Alike id (Parser.accept token) := by
    apply peek
    intro found
    split
    · exact skip (pure rfl)
    · exact pure rfl
  refine step haccept fun taken => ?_
  cases taken with
  | true => exact hyes
  | false => exact hno

theorem bounded {rule other : Nat → Parser β}
    (h : ∀ rounds, Similar sight (rule rounds) (other rounds)) :
    Similar sight (Parser.bounded rule) (Parser.bounded other) :=
  get fun ls rest hsame => by
    rw [hsame.length_eq]
    exact h _

end Similar

/-! ## Tokens and names -/

theorem require_alike (symbol : Symbol) : Alike id (require symbol) :=
  Similar.accept (.pure rfl) (.failExpecting (.symbol symbol))

theorem requireWord_alike (keyword : Keyword) : Alike id (requireWord keyword) :=
  Similar.accept (.pure rfl) (.failExpecting (.keyword keyword))

theorem name_alike (role : NameRole) : Alike id (name role) := by
  apply Similar.peek
  intro token
  split
  · split
    · exact .fail _
    · exact .skip (.pure rfl)
  · exact .failExpecting _

theorem propertyName_alike : Alike id propertyName := by
  apply Similar.peek
  intro token
  split
  · exact .skip (.pure rfl)
  · exact .failExpecting _

theorem boolean_alike : Alike id boolean :=
  Similar.accept (.pure rfl) (.accept (.pure rfl) (.failExpecting _))

theorem writeMode_alike : Alike id writeMode :=
  Similar.accept (.pure rfl) (.accept (.pure rfl) (.failExpecting _))

/-! ## Lists -/

section

variable {item : Parser α}

theorem map_cons_congr {first second : α} {rest more : List α} (h : view first = view second)
    (hrest : rest.map view = more.map view) :
    (first :: rest).map view = (second :: more).map view := by
  rw [List.map_cons, List.map_cons, h, hrest]

theorem commaSeparatedWithin_alike (h : Alike view item) (rounds : Nat) :
    Alike (List.map view) (commaSeparatedWithin item rounds) := by
  induction rounds with
  | zero => exact Similar.pure rfl
  | succ rounds ih =>
    refine Similar.bind h fun first second hfirst => ?_
    refine .accept ?_ (.pure (map_cons_congr hfirst rfl))
    exact .bind ih fun rest more hrest => .pure (map_cons_congr hfirst hrest)

theorem commaSeparated_alike (h : Alike view item) :
    Alike (List.map view) (commaSeparated item) :=
  Similar.bounded (commaSeparatedWithin_alike h)

theorem listUntil_alike (h : Alike view item) (close : Symbol) :
    Alike (List.map view) (listUntil item close) := by
  refine Similar.accept (.pure rfl) ?_
  refine Similar.bind (commaSeparated_alike h) fun items others hitems => ?_
  exact .step (require_alike close) fun _ => .pure hitems

theorem untilBraceWithin_alike (h : Alike view item) (rounds : Nat) :
    Alike (List.map view) (untilBraceWithin item rounds) := by
  induction rounds with
  | zero => exact Similar.pure rfl
  | succ rounds ih =>
    apply Similar.peek
    intro token
    split
    · exact .skip (.pure rfl)
    · exact .failExpecting _
    · refine Similar.bind h fun first second hfirst => ?_
      exact .bind ih fun rest more hrest => .pure (map_cons_congr hfirst hrest)

theorem untilBrace_alike (h : Alike view item) : Alike (List.map view) (untilBrace item) :=
  Similar.bounded (untilBraceWithin_alike h)

theorem untilEndWithin_alike (h : Alike view item) (rounds : Nat) :
    Alike (List.map view) (untilEndWithin item rounds) := by
  induction rounds with
  | zero => exact Similar.pure rfl
  | succ rounds ih =>
    apply Similar.peek
    intro token
    split
    · exact .pure rfl
    · refine Similar.bind h fun first second hfirst => ?_
      exact .bind ih fun rest more hrest => .pure (map_cons_congr hfirst hrest)

theorem untilEnd_alike (h : Alike view item) : Alike (List.map view) (untilEnd item) :=
  Similar.bounded (untilEndWithin_alike h)

/-- A rule that is told the place of a name does not depend on it. -/
def EntryAlike (view : α → γ) (entry : Position → String → Parser α) : Prop :=
  ∀ place other word, Similar view (entry place word) (entry other word)

variable {entry : Position → String → Parser α}

theorem entriesWithin_alike (h : EntryAlike view entry) (rounds : Nat) :
    Alike (List.map view) (entriesWithin entry rounds) := by
  induction rounds with
  | zero => exact Similar.pure rfl
  | succ rounds ih =>
    apply Similar.peek
    intro token
    split
    · exact .pure rfl
    · refine .here fun place other => ?_
      refine .step propertyName_alike fun word => .step (require_alike .colon) fun _ => ?_
      refine .bind (h place other word) fun first second hfirst => ?_
      refine .accept ?_ (.pure (map_cons_congr hfirst rfl))
      exact .bind ih fun rest more hrest => .pure (map_cons_congr hfirst hrest)

theorem object_alike (h : EntryAlike view entry) : Alike (List.map view) (object entry) := by
  refine Similar.step (require_alike .braceOpen) fun _ => ?_
  refine .bind (.bounded (entriesWithin_alike h)) fun entries others hentries => ?_
  exact .step (require_alike .braceClose) fun _ => .pure hentries

end

/-! ## Expressions -/

structure ExprRules.Alike (rules : ExprRules) : Prop where
  whole : Parser.Alike Expr.erase rules.whole
  signed : Parser.Alike Expr.erase rules.signed

theorem erase_join (op : BinaryOp) (left right : SourceExpr) :
    (Expr.join op left right).erase = .binary () op left.erase right.erase := rfl

theorem erase_list (place : Position) (items : List SourceExpr) :
    (Expr.list place items).erase = .list () (items.map Expr.erase) := by
  rw [Expr.erase, Expr.mapPlace, Expr.mapPlaces_eq]
  rfl

theorem erase_call (place : Position) (name : String) (arguments : List SourceExpr) :
    (Expr.call place name arguments).erase = .call () name (arguments.map Expr.erase) := by
  rw [Expr.erase, Expr.mapPlace, Expr.mapPlaces_eq]
  rfl

theorem primary_alike {inner : ExprRules} (h : inner.Alike) :
    Alike Expr.erase (primary inner) := by
  refine Similar.here fun place other => .peek fun token => ?_
  split
  · exact .skip (.pure rfl)
  · exact .skip (.pure rfl)
  · exact .skip (.pure rfl)
  · split
    · exact .skip (.pure rfl)
    · exact .skip (.pure rfl)
    · exact .fail _
    · refine .skip (.accept ?_ (.pure rfl))
      refine .bind (listUntil_alike h.whole .parenClose) fun items others hitems => .pure ?_
      rw [erase_call, erase_call, hitems]
  · refine .skip (.bind (listUntil_alike h.whole .bracketClose) fun items others hitems => .pure ?_)
    rw [erase_list, erase_list, hitems]
  · refine .skip (.bind h.whole fun expr _ hexpr => ?_)
    exact .step (require_alike .parenClose) fun _ => .pure hexpr
  · exact .fail _
  · exact .fail _
  · exact .failExpecting _

theorem power_alike {inner : ExprRules} (h : inner.Alike) : Alike Expr.erase (power inner) := by
  refine Similar.bind (primary_alike h) fun base other hbase => ?_
  refine .accept (.bind h.signed fun exponent _ hexponent => .pure ?_) (.pure hbase)
  rw [erase_join, erase_join, hbase, hexponent]

theorem signed_alike {inner : ExprRules} (h : inner.Alike) : Alike Expr.erase (signed inner) := by
  refine Similar.here fun place other => .peek fun token => ?_
  split
  · split
    · refine .skip (.bind h.signed fun operand _ hoperand => .pure ?_)
      exact congrArg (Expr.unary () _) hoperand
    · exact power_alike h
  · exact power_alike h

theorem chainWithin_similar {operand : Parser SourceExpr} (h : Alike Expr.erase operand)
    (rank rounds : Nat) {left other : SourceExpr} (hleft : left.erase = other.erase) :
    Similar Expr.erase (chainWithin operand rank rounds left)
      (chainWithin operand rank rounds other) := by
  induction rounds generalizing left other with
  | zero => exact .pure hleft
  | succ rounds ih =>
    refine .peek fun token => ?_
    split
    · refine .skip (.bind h fun right second hright => ih ?_)
      rw [erase_join, erase_join, hleft, hright]
    · exact .pure hleft

theorem tier_alike (rounds : Nat) {inner : ExprRules} (h : inner.Alike) (rank : Nat) :
    Alike Expr.erase (tier rounds inner rank) := by
  induction rank with
  | zero => exact signed_alike h
  | succ rank ih => exact Similar.bind ih fun _ _ hleft => chainWithin_similar ih _ _ hleft

theorem exprRulesAt_alike (budget : Nat) : (exprRulesAt budget).Alike := by
  induction budget with
  | zero => exact ⟨.failExpecting _, .failExpecting _⟩
  | succ budget ih => exact ⟨tier_alike budget ih _, signed_alike ih⟩

theorem expr_alike : Alike Expr.erase expr :=
  Similar.bounded fun budget => (exprRulesAt_alike budget).whole

/-! ## Parts of an embed -/

theorem propertyKey_similar {K : Type} (owner : PropertyOwner) (ofWord? : String → Option K)
    (place other : Position) (word : String) :
    Similar id (propertyKey owner ofWord? place word) (propertyKey owner ofWord? other word) := by
  unfold propertyKey
  split
  · exact .pure rfl
  · exact .failAt _ _ _

theorem sectionBody_alike {F K : Type} {sight : F → γ} (owner : PropertyOwner)
    (ofWord? : String → Option K) {flow : Parser F} (h : Alike sight flow) :
    Alike (fun written => (written.1, written.2.map sight Expr.erase))
      (sectionBody owner ofWord? flow) := by
  refine Similar.accept ?_ ?_
  · refine .here fun place other => .step propertyName_alike fun word => ?_
    refine .step (propertyKey_similar owner ofWord? place other word) fun key => ?_
    refine .step writeMode_alike fun mode => .bind expr_alike fun value _ hvalue => .pure ?_
    rw [Section.map, Section.map, hvalue]
  · refine .step writeMode_alike fun mode => .peek fun token => ?_
    split
    · have hentry : EntryAlike (fun entry : K × SourceExpr => (entry.1, entry.2.erase))
          fun place name => do
            let key ← propertyKey owner ofWord? place name
            return (key, ← expr) := by
        intro place other word
        refine .step (propertyKey_similar owner ofWord? place other word) fun key => ?_
        exact .bind expr_alike fun value _ hvalue => .pure (congrArg (Prod.mk key) hvalue)
      refine .bind (object_alike hentry) fun entries _ hentries => .pure ?_
      rw [Section.map, Section.map, hentries]
    · refine .bind h fun values _ hvalues => .pure ?_
      rw [Section.map, Section.map, hvalues]

theorem nextInFlow_alike : Alike (Option.map Expr.erase) nextInFlow :=
  Similar.accept (.bind expr_alike fun _ _ hvalue => .pure (congrArg some hvalue)) (.pure rfl)

theorem authorFlow_alike : Alike (AuthorFlow.map Expr.erase) authorFlow := by
  refine Similar.bind expr_alike fun name otherName hname => ?_
  refine .bind nextInFlow_alike fun url otherUrl hurl => ?_
  cases url with
  | none =>
    obtain rfl : otherUrl = none := by simpa using hurl.symm
    exact .pure (by rw [AuthorFlow.map, AuthorFlow.map, hname])
  | some url =>
    obtain ⟨otherUrl, rfl, -⟩ := Option.map_eq_some_iff.1 hurl.symm
    refine .bind nextInFlow_alike fun icon otherIcon hicon => .pure ?_
    rw [AuthorFlow.map, AuthorFlow.map, hname, hurl, hicon]

theorem footerFlow_alike : Alike (FooterFlow.map Expr.erase) footerFlow := by
  refine Similar.bind expr_alike fun text _ htext => .bind nextInFlow_alike fun icon _ hicon => ?_
  exact .pure (by rw [FooterFlow.map, FooterFlow.map, htext, hicon])

theorem fieldSetting_similar : EntryAlike (FieldSetting.map Expr.erase) fieldSetting := by
  intro place other word
  unfold fieldSetting
  split
  · exact .bind expr_alike fun _ _ hvalue => .pure (congrArg FieldSetting.title hvalue)
  · exact .bind expr_alike fun _ _ hvalue => .pure (congrArg FieldSetting.text hvalue)
  · exact .step boolean_alike fun _ => .pure rfl
  · exact .failAt _ _ _

theorem inlineMark_alike : Alike id inlineMark := by
  refine Similar.get fun ls rest hsame => ?_
  split
  · obtain ⟨_, _, rest, rfl, hrest⟩ := hsame.of_two
    dsimp only
    split
    · exact .set hrest (.pure rfl)
    · exact .pure rfl
  · rename_i hnone
    -- Such tokens on the other side alone would be here as well.
    split
    · obtain ⟨_, _, ls, rfl, -⟩ := hsame.symm.of_two
      exact absurd rfl (hnone _ _ _ _)
    · exact .pure rfl

theorem fieldTuple_similar (place other : Position) :
    Similar (Option.map FieldSpec.erase) (fieldTuple place) (fieldTuple other) := by
  refine .get fun start begin hstart => .step (require_alike .parenOpen) fun _ => ?_
  refine .bind expr_alike fun title _ htitle => .accept ?_ (.set hstart (.pure rfl))
  refine .bind expr_alike fun text _ htext => .step inlineMark_alike fun inline => ?_
  refine .step (require_alike .parenClose) fun _ => .pure ?_
  simp only [Option.map_some, FieldSpec.erase, FieldSpec.map, htitle, htext]

theorem fieldFlow_similar (place other : Position) :
    Similar FieldSpec.erase (fieldFlow place) (fieldFlow other) := by
  refine .bind expr_alike fun title _ htitle => .step (require_alike .comma) fun _ => ?_
  refine .bind expr_alike fun text _ htext => .step inlineMark_alike fun inline => .pure ?_
  rw [FieldSpec.erase, FieldSpec.erase, FieldSpec.map, FieldSpec.map, htitle, htext]

theorem field_alike : Alike FieldSpec.erase field := by
  refine Similar.here fun place other => .peek fun token => ?_
  split
  · refine .bind (object_alike fieldSetting_similar) fun settings _ hsettings => .pure ?_
    rw [FieldSpec.erase, FieldSpec.erase, FieldSpec.map, FieldSpec.map, hsettings]
  · refine .bind (fieldTuple_similar place other) fun found second hfound => ?_
    cases found with
    | none =>
      obtain rfl : second = none := by simpa using hfound.symm
      exact fieldFlow_similar place other
    | some field =>
      obtain ⟨second, rfl, hfield⟩ := Option.map_eq_some_iff.1 hfound.symm
      exact .pure hfield.symm
  · exact fieldFlow_similar place other

theorem fieldsBody_alike :
    Alike (fun written => (written.1, written.2.map Expr.erase fun _ => ())) fieldsBody := by
  refine Similar.accept ?_ ?_
  · refine .here fun place other => .step propertyName_alike fun word => ?_
    refine .step writeMode_alike fun mode => ?_
    refine .bind (fieldSetting_similar place other word) fun setting _ hsetting => .pure ?_
    rw [FieldsBody.map, FieldsBody.map, hsetting]
  · refine .step writeMode_alike fun mode => .accept ?_ ?_
    · refine .bind (commaSeparated_alike field_alike) fun fields _ hfields => ?_
      refine .step (require_alike .bracketClose) fun _ => .pure ?_
      rw [FieldsBody.map, FieldsBody.map, hfields]
    · refine .bind field_alike fun field _ hfield => .pure ?_
      exact congrArg (fun field => (mode, FieldsBody.part field)) hfield

/-- What is made of a write mode and a body differs no more than the body does. -/
theorem madeOfMode_alike {rule : Parser (WriteMode × α)} (make : WriteMode → α → β)
    (h : Alike (fun written => (written.1, view written.2)) rule)
    (hmake : ∀ mode first second, view first = view second →
      sight (make mode first) = sight (make mode second)) :
    Alike sight (rule >>= fun written => Pure.pure (make written.1 written.2)) := by
  refine Similar.bind h ?_
  rintro ⟨mode, first⟩ ⟨_, second⟩ hwritten
  obtain ⟨rfl, hsame⟩ := Prod.mk.inj hwritten
  exact .pure (hmake mode first second hsame)

theorem partBody_similar (place other : Position) (word : String) :
    Similar (PartBody.map Expr.erase fun _ => ()) (partBody place word) (partBody other word) := by
  unfold partBody
  split
  · refine .step (require_alike .assign) fun _ => ?_
    exact .bind expr_alike fun _ _ hvalue => .pure (congrArg (PartBody.member _) hvalue)
  · split
    · exact madeOfMode_alike PartBody.author (sectionBody_alike .author _ authorFlow_alike)
        fun mode _ _ hbody => congrArg (PartBody.author mode) hbody
    · exact madeOfMode_alike PartBody.footer (sectionBody_alike .footer _ footerFlow_alike)
        fun mode _ _ hbody => congrArg (PartBody.footer mode) hbody
    · exact madeOfMode_alike PartBody.fields fieldsBody_alike
        fun mode _ _ hbody => congrArg (PartBody.fields mode) hbody
    · exact madeOfMode_alike PartBody.fields fieldsBody_alike
        fun mode _ _ hbody => congrArg (PartBody.fields mode) hbody
    · exact .failAt _ _ _

theorem embedPart_alike : Alike EmbedPart.erase embedPart := by
  refine Similar.here fun place other => .step propertyName_alike fun word => ?_
  refine .bind (partBody_similar place other word) fun body _ hbody => ?_
  refine .step (require_alike .semicolon) fun _ => .pure ?_
  rw [EmbedPart.erase, EmbedPart.erase, EmbedPart.map, EmbedPart.map, hbody]

/-! ## Statements -/

theorem erase_block (place : Position) (body : List SourceStmt) :
    (Stmt.block place body).erase = .block () (body.map Stmt.erase) := by
  rw [Stmt.erase, Stmt.map, Stmt.mapAll_eq]
  rfl

theorem erase_branch (place : Position) (condition : SourceExpr) (yes : SourceStmt)
    (no : Option SourceStmt) :
    (Stmt.branch place condition yes no).erase =
      .branch () condition.erase yes.erase (no.map Stmt.erase) := by
  rw [Stmt.erase, Stmt.map, Stmt.map?_eq]
  rfl

theorem erase_forLoop (place : Position) (init : Option SourceStmt) (check : Option SourceExpr)
    (step : Option SourceStmt) (body : SourceStmt) :
    (Stmt.forLoop place init check step body).erase =
      .forLoop () (init.map Stmt.erase) (check.map Expr.erase) (step.map Stmt.erase)
        body.erase := by
  rw [Stmt.erase, Stmt.map, Stmt.map?_eq, Stmt.map?_eq]
  rfl

theorem simple_alike : Alike Stmt.erase simple := by
  refine Similar.here fun place other => .get fun ls rest hsame => ?_
  split
  · obtain ⟨_, _, rest, rfl, -⟩ := hsame.of_two
    refine .step (name_alike .assigned) fun name => .skip ?_
    exact .bind expr_alike fun _ _ hvalue => .pure (congrArg (Stmt.assign () name) hvalue)
  · rename_i hnone
    split
    · obtain ⟨_, _, ls, rfl, -⟩ := hsame.symm.of_two
      exact absurd rfl (hnone _ _ _ _)
    · exact .bind expr_alike fun _ _ hvalue => .pure (congrArg (Stmt.expr ()) hvalue)

theorem exprSemicolon_alike : Alike Expr.erase exprSemicolon :=
  Similar.bind expr_alike fun _ _ hvalue =>
    .step (require_alike .semicolon) fun _ => .pure hvalue

theorem parenthesized_alike : Alike Expr.erase parenthesized :=
  Similar.step (require_alike .parenOpen) fun _ => .bind expr_alike fun _ _ hvalue =>
    .step (require_alike .parenClose) fun _ => .pure hvalue

theorem unlessAt_alike {rule : Parser α} (stop : Symbol) (h : Alike view rule) :
    Alike (Option.map view) (unlessAt stop rule) := by
  refine Similar.peek fun token => ?_
  split
  · exact .pure rfl
  · exact .bind h fun _ _ hvalue => .pure (congrArg some hvalue)

theorem embed_similar (place other : Position) :
    Similar Stmt.erase (embed place) (embed other) := by
  refine .accept ?_ ?_
  · refine .bind embedPart_alike fun part _ hpart => .pure ?_
    exact congrArg (fun part => Stmt.embed () [part]) hpart
  · refine .step (require_alike .braceOpen) fun _ => ?_
    refine .bind (untilBrace_alike embedPart_alike) fun parts _ hparts => .pure ?_
    exact congrArg (Stmt.embed ()) hparts

theorem exprStmt_alike : Alike Stmt.erase exprStmt :=
  Similar.bind simple_alike fun _ _ hstmt =>
    .step (require_alike .semicolon) fun _ => .pure hstmt

section

variable {inner : Parser SourceStmt} (h : Alike Stmt.erase inner)

include h

theorem block_alike : Alike Stmt.erase (block inner) := by
  refine Similar.here fun place other => .step (require_alike .braceOpen) fun _ => ?_
  refine .bind (untilBrace_alike h) fun body _ hbody => .pure ?_
  rw [erase_block, erase_block, hbody]

theorem functionDeclaration_similar (place other : Position) :
    Similar Stmt.erase (functionDeclaration inner place) (functionDeclaration inner other) := by
  refine .here fun namePlace _ => .step (name_alike .function) fun name => ?_
  refine .step (require_alike .parenOpen) fun _ => ?_
  refine .bind (listUntil_alike (name_alike .parameter) .parenClose) fun parameters _ hsame => ?_
  rw [List.map_id, List.map_id] at hsame
  refine .bind (block_alike h) fun body _ hbody => .pure ?_
  rw [hsame]
  exact congrArg (Stmt.function () name () _) hbody

theorem branch_similar (place other : Position) :
    Similar Stmt.erase (branch inner place) (branch inner other) := by
  refine .bind parenthesized_alike fun condition _ hcondition => .bind h fun yes _ hyes => ?_
  refine .accept (.bind h fun no _ hno => .pure ?_) (.pure ?_)
  · rw [erase_branch, erase_branch, hcondition, hyes, Option.map_some, Option.map_some, hno]
  · rw [erase_branch, erase_branch, hcondition, hyes]

theorem forLoop_similar (place other : Position) :
    Similar Stmt.erase (forLoop inner place) (forLoop inner other) := by
  refine .step (require_alike .parenOpen) fun _ => ?_
  refine .bind (unlessAt_alike .semicolon simple_alike) fun init _ hinit => ?_
  refine .step (require_alike .semicolon) fun _ => ?_
  refine .bind (unlessAt_alike .semicolon expr_alike) fun check _ hcheck => ?_
  refine .step (require_alike .semicolon) fun _ => ?_
  refine .bind (unlessAt_alike .parenClose simple_alike) fun step _ hstep => ?_
  refine .step (require_alike .parenClose) fun _ => .bind h fun body _ hbody => .pure ?_
  rw [erase_forLoop, erase_forLoop, hinit, hcheck, hstep, hbody]

theorem foreach_similar (place other : Position) :
    Similar Stmt.erase (foreach inner place) (foreach inner other) := by
  refine .step (require_alike .parenOpen) fun _ => .step (name_alike .loopVariable) fun name => ?_
  refine .step (requireWord_alike .among) fun _ => .bind expr_alike fun iterable _ hiterable => ?_
  refine .step (require_alike .parenClose) fun _ => .bind h fun body _ hbody => .pure ?_
  exact congrArg₂ (Stmt.foreach () name) hiterable hbody

theorem whileLoop_similar (place other : Position) :
    Similar Stmt.erase (whileLoop inner place) (whileLoop inner other) := by
  refine .bind parenthesized_alike fun condition _ hcondition => .bind h fun body _ hbody => ?_
  exact .pure (congrArg₂ (Stmt.whileLoop ()) hcondition hbody)

theorem doWhile_similar (place other : Position) :
    Similar Stmt.erase (doWhile inner place) (doWhile inner other) := by
  refine .bind h fun body _ hbody => .step (requireWord_alike .whileLoop) fun _ => ?_
  refine .bind parenthesized_alike fun condition _ hcondition => ?_
  refine .step (require_alike .semicolon) fun _ => .pure ?_
  exact congrArg₂ (Stmt.doWhile ()) hbody hcondition

theorem keywordStmt_similar (place other : Position) (keyword : Keyword) :
    Similar Stmt.erase (keywordStmt inner place keyword) (keywordStmt inner other keyword) := by
  cases keyword with
  | constant => exact .fail _
  | function => exact .skip (functionDeclaration_similar h place other)
  | result =>
    exact .skip (.bind exprSemicolon_alike fun _ _ hvalue =>
      .pure (congrArg (Stmt.result ()) hvalue))
  | branch => exact .skip (branch_similar h place other)
  | forLoop => exact .skip (forLoop_similar h place other)
  | foreach => exact .skip (foreach_similar h place other)
  | whileLoop => exact .skip (whileLoop_similar h place other)
  | doLoop => exact .skip (doWhile_similar h place other)
  | text =>
    exact .skip (.bind exprSemicolon_alike fun _ _ hvalue => .pure (congrArg (Stmt.text ()) hvalue))
  | attachment =>
    exact .skip (.bind exprSemicolon_alike fun _ _ hvalue =>
      .pure (congrArg (Stmt.attachment ()) hvalue))
  | embed => exact .skip (embed_similar place other)
  | otherwise | among | truth | falsity | inline => exact exprStmt_alike

theorem stmtRule_alike : Alike Stmt.erase (stmtRule inner) := by
  refine Similar.here fun place other => .peek fun token => ?_
  split
  · exact block_alike h
  · exact .skip (.pure rfl)
  · split
    · exact keywordStmt_similar h place other _
    · exact exprStmt_alike
  · exact exprStmt_alike

end

theorem stmtRuleAt_alike (budget : Nat) : Alike Stmt.erase (stmtRuleAt budget) := by
  induction budget with
  | zero => exact Similar.failExpecting _
  | succ budget ih => exact stmtRule_alike ih

theorem stmt_alike : Alike Stmt.erase stmt := Similar.bounded stmtRuleAt_alike

theorem constant_similar (place other : Position) :
    Similar Item.erase (constant place) (constant other) := by
  refine .step (name_alike .constant) fun name => .step (require_alike .assign) fun _ => ?_
  exact .bind exprSemicolon_alike fun _ _ hvalue => .pure (congrArg (Item.constant () name) hvalue)

theorem item_alike : Alike Item.erase item := by
  refine Similar.here fun place other => .accept (constant_similar place other) ?_
  exact .bind stmt_alike fun _ _ hstmt => .pure (congrArg Item.stmt hstmt)

theorem template_alike : Alike (List.map Item.erase) template := untilEnd_alike item_alike

end Parser

/-- A tree without its places, or a fault without its place. -/
def unplaced : Except SyntaxError SourceTemplate →
    Except SyntaxFault (List (Item (Expr Literal Unit) Unit))
  | .ok items => .ok (items.map Item.erase)
  | .error error => .error error.fault

/-- The tokens of a text decide what is read, and their places decide nothing. -/
theorem parseTemplate_congr {source other : String} (h : tokens source = tokens other) :
    unplaced (parseTemplate source) = unplaced (parseTemplate other) := by
  have hends := Parser.template_alike (lexemes source) (lexemes other) h
  unfold parseTemplate StateT.run'
  generalize Parser.template (lexemes source) = one at hends
  generalize Parser.template (lexemes other) = two at hends
  cases hends with
  | ok hview _ => exact congrArg Except.ok hview
  | error fault place other => rfl

/-! ## Layout -/

/-- Layout in front of a token changes neither the tokens nor what is read from them. Only at the
end of a text inside a comment on its last line does it change the tokens, if the comment leaves
something of the layout that is no layout. -/
theorem layout_ignored_iff {first rest layout : String} {lexeme : Lexeme}
    (hmem : lexeme ∈ lexemes (first ++ rest)) (hplace : lexeme.position = .behind first.toList)
    (hopen : lexeme.token ≠ .unterminated .blockComment) (hlayout : IsLayout layout.toList)
    (hblank : ∃ w ∈ layout.toList.head?, isBlank w = true) :
    (tokens (first ++ layout ++ rest) = tokens (first ++ rest) ↔
      MayInsert first.toList rest.toList layout.toList) ∧
    (MayInsert first.toList rest.toList layout.toList →
      unplaced (parseTemplate (first ++ layout ++ rest)) =
        unplaced (parseTemplate (first ++ rest))) := by
  have htokens : tokens (first ++ layout ++ rest) = tokens (first ++ rest) ↔
      MayInsert first.toList rest.toList layout.toList := by
    rw [lexemes, String.toList_append] at hmem
    rw [tokens_eq, tokens_eq, String.toList_append, String.toList_append, String.toList_append]
    exact tokensOf_insert_iff hmem hplace hopen hlayout hblank
  exact ⟨htokens, fun hmay => parseTemplate_congr (htokens.2 hmay)⟩

theorem layout_ignored_iff_divisionMark :
    tokens ("text 1" ++ " // \"/*\n" ++ "/2;") = tokens "text 1/2;" ∧
      unplaced (parseTemplate ("text 1" ++ " // \"/*\n" ++ "/2;")) =
        unplaced (parseTemplate "text 1/2;") := by
  have hmem : ⟨.symbol .slash, ⟨1, 6⟩⟩ ∈ lexemes ("text 1" ++ "/2;") := by decide +kernel
  have hlayout : IsLayout " // \"/*\n".toList :=
    .blank (by decide) (@IsLayout.line [' ', '"', '/', '*'] [] (by decide) .nil)
  have hboth := layout_ignored_iff hmem (by decide +kernel) (by decide) hlayout
    ⟨' ', rfl, by decide⟩
  have hmay : MayInsert "text 1".toList "/2;".toList " // \"/*\n".toList :=
    fun hnil => absurd hnil (by decide +kernel)
  exact ⟨hboth.1.2 hmay, hboth.2 hmay⟩

/-- Behind a comment on the last line the first line feed of the layout ends this comment, and here
it stands inside another one. -/
theorem layout_not_ignored :
    let source := "text \"a\"; // note"
    let layout := " /*\n*/"
    ⟨.endOfInput, .behind source.toList⟩ ∈ lexemes source ∧ IsLayout layout.toList ∧
      (∃ w ∈ layout.toList.head?, isBlank w = true) ∧
      tokens (source ++ layout) ≠ tokens source ∧
      unplaced (parseTemplate (source ++ layout)) ≠ unplaced (parseTemplate source) := by
  have hlayout : IsLayout " /*\n*/".toList :=
    .blank (by decide) (@IsLayout.block ['\n'] [] (by decide) .nil)
  refine ⟨by decide +kernel, hlayout, ⟨' ', rfl, by decide⟩, by decide +kernel, fun hsame => ?_⟩
  have hread : (unplaced (parseTemplate "text \"a\"; // note")).isOk = true := by decide +kernel
  have hrefused : (unplaced (parseTemplate ("text \"a\"; // note" ++ " /*\n*/"))).isOk = false := by
    decide +kernel
  rw [hsame, hread] at hrefused
  contradiction

end MessageTemplate
