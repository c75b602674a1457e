import MessageTemplate.Proofs.Grammar.Completeness
import MessageTemplate.Proofs.Grammar.Derivation

/-!
# Reading undoes printing

The trees that can be read are the well-formed ones: every tree that is read is
well formed, and a well-formed tree is read back, up to its places, from any
text in which it is written, so from its printed text too.
-/

namespace MessageTemplate

variable {P : Type}

namespace Stmt

variable {E F Q : Type}

theorem map?_eq (f : E → F) (g : P → Q) (s : Option (Stmt E P)) : map? f g s = s.map (map f g) := by
  cases s <;> simp [map?]

@[simp] theorem isOpen_map (f : E → F) (g : P → Q) (s : Stmt E P) :
    (s.map f g).isOpen = s.isOpen := by
  induction s using Stmt.induct with
  | step s ih =>
    cases s with
    | branch place test yes no =>
      cases no with
      | none => rfl
      | some no =>
        have hno := ih no (by simp [children])
        simpa [map, map?, isOpen] using hno
    | forLoop place init check step body | foreach place name iterable body
    | whileLoop place test body =>
      have hbody := ih body (by simp [children])
      simpa [map, isOpen] using hbody
    | _ => simp [map, isOpen]

/-- The statement without its places. -/
def erase (s : Stmt (Expr Literal P) P) : Stmt (Expr Literal Unit) Unit :=
  s.map Expr.erase fun _ => ()

theorem isOpen_of_erase_eq {first : SourceStmt} {second : Stmt (Expr Literal P) P}
    (h : first.erase = second.erase) : first.isOpen = second.isOpen := by
  have hopen := congrArg isOpen h
  rwa [erase, erase, isOpen_map, isOpen_map] at hopen

theorem isBlock_of_erase_eq {first : SourceStmt} {second : Stmt (Expr Literal P) P}
    (h : first.erase = second.erase) (hblock : second.isBlock = true) : first.isBlock = true := by
  cases second <;> first | contradiction | skip
  cases first <;> first | rfl | simp [erase, map] at h

end Stmt

/-- A sentence that is a block has the form of a block. -/
theorem Sentence.exists_block {ls rest : List Lexeme} {s : SourceStmt} (h : Sentence ls s rest)
    (hblock : s.isBlock = true) :
    ∃ item : Form SourceStmt, (∀ ls value rest, item ls value rest → Sentence ls value rest) ∧
      BlockForm item ls s rest := by
  cases h with
  | block hitem hform => exact ⟨_, hitem, hform⟩
  | simple hsimple _ => cases hsimple <;> contradiction
  | _ => contradiction

/-! ## Statements -/

section

variable {row : List Token}

theorem name_derives {word : String} (h : IsName word) : Derives [.ident word] NameForm id word :=
  fun _ _ hrow => ⟨word, ⟨hrow.of_singleton, h.2⟩, rfl⟩

theorem ClosedWritten.derives {value : Expr Literal P} (hwritten : ClosedWritten value row)
    (h : value.WellFormed) : Derives row ClosedForm Expr.erase value.erase := by
  intro ls rest hrow
  obtain ⟨hvalue⟩ := hwritten
  obtain ⟨mid, hrow, hclose⟩ := hrow.of_concat
  obtain ⟨out, hout, hview⟩ := hvalue.derives h ls mid hrow
  exact ⟨out, ⟨hout, hclose⟩, hview⟩

theorem ConditionWritten.derives {test : Expr Literal P} (hwritten : ConditionWritten test row)
    (h : test.WellFormed) : Derives row ConditionForm Expr.erase test.erase := by
  intro ls rest hrow
  obtain ⟨htest⟩ := hwritten
  obtain ⟨mid, hopen, hrow⟩ := Row.of_cons hrow
  obtain ⟨next, hrow, hclose⟩ := hrow.of_concat
  obtain ⟨out, hout, hview⟩ := htest.derives h mid next hrow
  exact ⟨out, ⟨hopen, hout, hclose⟩, hview⟩

theorem OptionalWritten.derives {α β γ : Type} {written : β → List Token → Prop} {form : Form α}
    {view : α → γ} {goal : β → γ} {value : Option β} (hwritten : OptionalWritten written value row)
    (h : ∀ b ∈ value, ∀ row, written b row → Derives row form view (goal b)) :
    Derives row (Optional form) (Option.map view) (value.map goal) := by
  intro ls rest hrow
  cases hwritten with
  | none =>
    cases hrow
    exact ⟨_, .none, rfl⟩
  | some hb =>
    obtain ⟨out, hout, hview⟩ := h _ rfl _ hb ls rest hrow
    exact ⟨_, .some hout, congrArg Option.some hview⟩

theorem PartsWritten.derives {parts : List (EmbedPart (Expr Literal P) P)}
    (hwritten : PartsWritten parts row) (hfits : ∀ part ∈ parts, part.body.Fits)
    (h : ∀ part ∈ parts, ∀ e ∈ part.exprs, e.WellFormed) :
    Derives row PartsForm (List.map EmbedPart.erase) (parts.map EmbedPart.erase) := by
  intro ls rest hrow
  cases hwritten with
  | braces hparts =>
    obtain ⟨mid, hopen, hrow⟩ := Row.of_cons hrow
    obtain ⟨next, hrow, hclose⟩ := hrow.of_concat
    have hinside := forall₂_imp_of_mem hparts fun part hpart _ hpartWritten =>
      hpartWritten.derives (hfits part hpart) (h part hpart)
    obtain ⟨out, hout, hviews⟩ := repeated_derives hinside mid next hrow
    exact ⟨out, .braces hopen hout hclose, hviews⟩
  | @single part _ hpart =>
    obtain ⟨mid, hdot, hrow⟩ := Row.of_cons hrow
    have hone := hpart.derives (hfits part (by simp)) (h part (by simp))
    obtain ⟨out, hout, hview⟩ := hone mid rest hrow
    exact ⟨[out], .single hdot hout, congrArg (fun part => [part]) hview⟩

end

namespace Stmt

section

variable {row first second third : List Token}

theorem ClauseWritten.derives {s : Stmt (Expr Literal P) P} (hwritten : s.ClauseWritten row)
    (h : s.WellFormed) : Derives row SimpleForm erase s.erase := by
  obtain ⟨⟨hfits, hexprs⟩, -⟩ := wellFormed_iff.1 h
  intro ls rest hrow
  cases hwritten with
  | @assign place name value _ hvalue =>
    have hfree : IsName name := hfits
    obtain ⟨mid, hname, hrow⟩ := Row.of_cons hrow
    obtain ⟨next, hassign, hrow⟩ := Row.of_cons hrow
    obtain ⟨out, hout, hview⟩ := hvalue.derives (hexprs value (by simp [exprs])) next rest hrow
    exact ⟨_, .assign hname hfree.2 hassign hout, congrArg (Stmt.assign () name) hview⟩
  | @expr place value _ hvalue =>
    obtain ⟨out, hout, hview⟩ := hvalue.derives (hexprs value (by simp [exprs])) ls rest hrow
    exact ⟨_, .expr hout, congrArg (Stmt.expr ()) hview⟩

theorem function_derives {place namePlace : P} {name : String} {parameters : List String}
    {body : Stmt (Expr Literal P) P} (hname : IsName name)
    (hparameters : ∀ parameter ∈ parameters, IsName parameter) (hblock : body.isBlock = true)
    (hbody : Derives row Sentence erase body.erase) :
    Derives (Keyword.function.token :: .ident name :: .symbol .parenOpen ::
        (commaRow (parameters.map fun parameter => [.ident parameter]) ++
          .symbol .parenClose :: row)) Sentence erase
      (Stmt.function place name namePlace parameters body).erase := by
  intro ls rest hrow
  obtain ⟨mid, hword, hrow⟩ := hrow.of_cons
  obtain ⟨next, hident, hrow⟩ := hrow.of_cons
  obtain ⟨after, hopen, hrow⟩ := hrow.of_cons
  obtain ⟨last, hrowNames, hrow⟩ := hrow.of_append
  obtain ⟨behind, hclose, hrowBody⟩ := hrow.of_cons
  have hnames : List.Forall₂ (fun parameter row => Derives row NameForm id (id parameter))
      parameters (parameters.map fun parameter => [.ident parameter]) := by
    rw [List.forall₂_map_right_iff, List.forall₂_same]
    exact fun parameter hparameter => name_derives (hparameters parameter hparameter)
  obtain ⟨out, hout, hviews⟩ := exists_listed hnames hrowNames hclose
  rw [List.map_id, List.map_id] at hviews
  subst hviews
  obtain ⟨inside, hinside, hview⟩ := hbody behind rest hrowBody
  obtain ⟨item, hitem, hform⟩ := hinside.exists_block (isBlock_of_erase_eq hview hblock)
  exact ⟨_, .function hword ⟨hident, hname.2⟩ hopen hout hitem hform,
    congrArg (Stmt.function () name () out) hview⟩

theorem branch_derives {place : P} {test : Expr Literal P} {yes : Stmt (Expr Literal P) P}
    (htest : Derives first ConditionForm Expr.erase test.erase)
    (hyes : Derives second Sentence erase yes.erase) :
    Derives (Keyword.branch.token :: (first ++ second)) Sentence erase
      (Stmt.branch place test yes none).erase := by
  intro ls rest hrow
  obtain ⟨mid, hword, hrow⟩ := hrow.of_cons
  obtain ⟨next, hrowTest, hrowYes⟩ := hrow.of_append
  obtain ⟨check, hcheck, hviewCheck⟩ := htest mid next hrowTest
  obtain ⟨out, hout, hview⟩ := hyes next rest hrowYes
  refine ⟨_, .branch hword hcheck hout, ?_⟩
  simp only [erase, map, map?]
  exact congrArg₂ (fun test yes => Stmt.branch () test yes none) hviewCheck hview

/-- The branch in front of an `else` cannot go on with it. -/
theorem branchElse_derives {place : P} {test : Expr Literal P} {yes no : Stmt (Expr Literal P) P}
    (hclosed : yes.isOpen = false) (htest : Derives first ConditionForm Expr.erase test.erase)
    (hyes : Derives second Sentence erase yes.erase)
    (hno : Derives third Sentence erase no.erase) :
    Derives (Keyword.branch.token :: (first ++ (second ++ Keyword.otherwise.token :: third)))
      Sentence erase (Stmt.branch place test yes (some no)).erase := by
  intro ls rest hrow
  obtain ⟨mid, hword, hrow⟩ := hrow.of_cons
  obtain ⟨next, hrowTest, hrow⟩ := hrow.of_append
  obtain ⟨after, hrowYes, hrow⟩ := hrow.of_append
  obtain ⟨behind, helse, hrowNo⟩ := hrow.of_cons
  obtain ⟨check, hcheck, hviewCheck⟩ := htest mid next hrowTest
  obtain ⟨yes', hyes, hviewYes⟩ := hyes next after hrowYes
  obtain ⟨no', hno, hviewNo⟩ := hno behind rest hrowNo
  have hopen := (isOpen_of_erase_eq hviewYes).trans hclosed
  refine ⟨_, .branchElse hword hcheck hyes hopen helse hno, ?_⟩
  rw [erase] at hviewYes hviewNo ⊢
  simp only [erase, map, map?, hviewCheck, hviewYes, hviewNo]

theorem forLoop_derives {place : P} {init step : Option (Stmt (Expr Literal P) P)}
    {check : Option (Expr Literal P)} {body : Stmt (Expr Literal P) P}
    (hinit : Derives first (Optional SimpleForm) (Option.map erase) (init.map erase))
    (hcheck : Derives second (Optional Whole) (Option.map Expr.erase) (check.map Expr.erase))
    (hstep : Derives third (Optional SimpleForm) (Option.map erase) (step.map erase))
    (hbody : Derives row Sentence erase body.erase) :
    Derives (Keyword.forLoop.token :: .symbol .parenOpen :: (first ++ .symbol .semicolon ::
        (second ++ .symbol .semicolon :: (third ++ .symbol .parenClose :: row)))) Sentence erase
      (Stmt.forLoop place init check step body).erase := by
  intro ls rest hrow
  obtain ⟨mid, hword, hrow⟩ := hrow.of_cons
  obtain ⟨next, hopen, hrow⟩ := hrow.of_cons
  obtain ⟨afterInit, hrowInit, hrow⟩ := hrow.of_append
  obtain ⟨toCheck, hinitClose, hrow⟩ := hrow.of_cons
  obtain ⟨afterCheck, hrowCheck, hrow⟩ := hrow.of_append
  obtain ⟨toStep, hcheckClose, hrow⟩ := hrow.of_cons
  obtain ⟨afterStep, hrowStep, hrow⟩ := hrow.of_append
  obtain ⟨toBody, hstepClose, hrow⟩ := hrow.of_cons
  obtain ⟨init', hinit, hviewInit⟩ := hinit next afterInit hrowInit
  obtain ⟨check', hcheck, hviewCheck⟩ := hcheck toCheck afterCheck hrowCheck
  obtain ⟨step', hstep, hviewStep⟩ := hstep toStep afterStep hrowStep
  obtain ⟨body', hbody, hviewBody⟩ := hbody toBody rest hrow
  refine ⟨_, .forLoop hword hopen hinit hinitClose hcheck hcheckClose hstep hstepClose hbody, ?_⟩
  rw [erase, erase, map, map, map?_eq, map?_eq, map?_eq, map?_eq]
  change Stmt.forLoop () (init'.map erase) (check'.map Expr.erase) (step'.map erase) body'.erase = _
  rw [hviewInit, hviewCheck, hviewStep, hviewBody]
  rfl

theorem foreach_derives {place : P} {name : String} {iterable : Expr Literal P}
    {body : Stmt (Expr Literal P) P} (hname : IsName name)
    (hiterable : Derives first Whole Expr.erase iterable.erase)
    (hbody : Derives row Sentence erase body.erase) :
    Derives (Keyword.foreach.token :: .symbol .parenOpen :: .ident name :: Keyword.among.token ::
        (first ++ .symbol .parenClose :: row)) Sentence erase
      (Stmt.foreach place name iterable body).erase := by
  intro ls rest hrow
  obtain ⟨mid, hword, hrow⟩ := hrow.of_cons
  obtain ⟨next, hopen, hrow⟩ := hrow.of_cons
  obtain ⟨after, hident, hrow⟩ := hrow.of_cons
  obtain ⟨toItems, hamong, hrow⟩ := hrow.of_cons
  obtain ⟨afterItems, hrowItems, hrow⟩ := hrow.of_append
  obtain ⟨toBody, hclose, hrow⟩ := hrow.of_cons
  obtain ⟨items, hitems, hviewItems⟩ := hiterable toItems afterItems hrowItems
  obtain ⟨out, hout, hview⟩ := hbody toBody rest hrow
  exact ⟨_, .foreach hword hopen ⟨hident, hname.2⟩ hamong hitems hclose hout,
    congrArg₂ (Stmt.foreach () name) hviewItems hview⟩

/-- Wherever a statement is written, its row has the form of a sentence. -/
theorem Written.derives {s : Stmt (Expr Literal P) P} (hwritten : s.Written row)
    (h : s.WellFormed) : Derives row Sentence erase s.erase := by
  induction hwritten with
  | empty place => exact fun _ _ hrow => ⟨_, .empty hrow.of_singleton, rfl⟩
  | clause hclause =>
    intro ls rest hrow
    obtain ⟨mid, hrow, hclose⟩ := hrow.of_concat
    obtain ⟨out, hout, hview⟩ := hclause.derives h ls mid hrow
    exact ⟨out, .simple hout hclose, hview⟩
  | block place hitem hbody ih =>
    intro ls rest hrow
    have hinside := forall₂_imp_of_mem hbody fun s hs row hrow =>
      ih s row hrow ((wellFormed_iff.1 h).2 s hs)
    obtain ⟨mid, hopen, hrow⟩ := hrow.of_cons
    obtain ⟨next, hrow, hclose⟩ := hrow.of_concat
    obtain ⟨out, hout, hviews⟩ := repeated_derives hinside mid next hrow
    refine ⟨_, .block (fun _ _ _ hitem => hitem) ⟨hopen, hout, hclose⟩, ?_⟩
    simp only [erase, map, mapAll_eq]
    exact congrArg (Stmt.block ()) hviews
  | function place name namePlace parameters _ ih =>
    obtain ⟨⟨hfits, -⟩, hchildren⟩ := wellFormed_iff.1 h
    exact function_derives hfits.1 hfits.2.1 hfits.2.2 (ih (hchildren _ (by simp [children])))
  | result place hvalue =>
    intro ls rest hrow
    obtain ⟨⟨-, hexprs⟩, -⟩ := wellFormed_iff.1 h
    obtain ⟨mid, hword, hrow⟩ := hrow.of_cons
    obtain ⟨out, hout, hview⟩ := hvalue.derives (hexprs _ (by simp [exprs])) mid rest hrow
    exact ⟨_, .result hword hout, congrArg (Stmt.result ()) hview⟩
  | branch place htest _ ih =>
    obtain ⟨⟨-, hexprs⟩, hchildren⟩ := wellFormed_iff.1 h
    exact branch_derives (htest.derives (hexprs _ (by simp [exprs])))
      (ih (hchildren _ (by simp [children])))
  | branchElse place htest _ _ ihyes ihno =>
    obtain ⟨⟨hfits, hexprs⟩, hchildren⟩ := wellFormed_iff.1 h
    exact branchElse_derives hfits (htest.derives (hexprs _ (by simp [exprs])))
      (ihyes (hchildren _ (by simp [children]))) (ihno (hchildren _ (by simp [children])))
  | forLoop place hinit hcheck hstep _ ih =>
    obtain ⟨⟨-, hexprs⟩, hchildren⟩ := wellFormed_iff.1 h
    have hclause : ∀ c, c ∈ children _ → ∀ row, c.ClauseWritten row →
        Derives row SimpleForm erase c.erase :=
      fun c hc row hwritten => hwritten.derives (hchildren c hc)
    refine forLoop_derives (hinit.derives fun c hc => hclause c ?_)
      (hcheck.derives fun e he row hwritten => hwritten.derives (hexprs e ?_))
      (hstep.derives fun c hc => hclause c ?_) (ih (hchildren _ (by simp [children])))
    · simp [children, Option.mem_def.1 hc]
    · simp [exprs, Option.mem_def.1 he]
    · simp [children, Option.mem_def.1 hc]
  | foreach place name hiterable _ ih =>
    obtain ⟨⟨hfits, hexprs⟩, hchildren⟩ := wellFormed_iff.1 h
    exact foreach_derives hfits (hiterable.derives (hexprs _ (by simp [exprs])))
      (ih (hchildren _ (by simp [children])))
  | whileLoop place htest _ ih =>
    intro ls rest hrow
    obtain ⟨⟨-, hexprs⟩, hchildren⟩ := wellFormed_iff.1 h
    obtain ⟨mid, hword, hrow⟩ := hrow.of_cons
    obtain ⟨next, hrowTest, hrowBody⟩ := hrow.of_append
    obtain ⟨check, hcheck, hviewCheck⟩ :=
      htest.derives (hexprs _ (by simp [exprs])) mid next hrowTest
    obtain ⟨out, hout, hview⟩ := ih (hchildren _ (by simp [children])) next rest hrowBody
    exact ⟨_, .whileLoop hword hcheck hout, congrArg₂ (Stmt.whileLoop ()) hviewCheck hview⟩
  | doWhile place _ htest ih =>
    intro ls rest hrow
    obtain ⟨⟨-, hexprs⟩, hchildren⟩ := wellFormed_iff.1 h
    obtain ⟨mid, hword, hrow⟩ := hrow.of_cons
    obtain ⟨next, hrowBody, hrow⟩ := hrow.of_append
    obtain ⟨after, hwhile, hrow⟩ := hrow.of_cons
    obtain ⟨behind, hrowTest, hclose⟩ := hrow.of_concat
    obtain ⟨out, hout, hview⟩ := ih (hchildren _ (by simp [children])) mid next hrowBody
    obtain ⟨check, hcheck, hviewCheck⟩ :=
      htest.derives (hexprs _ (by simp [exprs])) after behind hrowTest
    exact ⟨_, .doWhile hword hout hwhile hcheck hclose,
      congrArg₂ (Stmt.doWhile ()) hview hviewCheck⟩
  | text place hvalue =>
    intro ls rest hrow
    obtain ⟨⟨-, hexprs⟩, -⟩ := wellFormed_iff.1 h
    obtain ⟨mid, hword, hrow⟩ := hrow.of_cons
    obtain ⟨out, hout, hview⟩ := hvalue.derives (hexprs _ (by simp [exprs])) mid rest hrow
    exact ⟨_, .text hword hout, congrArg (Stmt.text ()) hview⟩
  | attachment place hvalue =>
    intro ls rest hrow
    obtain ⟨⟨-, hexprs⟩, -⟩ := wellFormed_iff.1 h
    obtain ⟨mid, hword, hrow⟩ := hrow.of_cons
    obtain ⟨out, hout, hview⟩ := hvalue.derives (hexprs _ (by simp [exprs])) mid rest hrow
    exact ⟨_, .attachment hword hout, congrArg (Stmt.attachment ()) hview⟩
  | embed place hparts =>
    intro ls rest hrow
    obtain ⟨⟨hfits, hexprs⟩, -⟩ := wellFormed_iff.1 h
    obtain ⟨mid, hword, hrow⟩ := hrow.of_cons
    have hinside := hparts.derives hfits fun part hpart e he =>
      hexprs e (List.mem_flatMap.2 ⟨part, hpart, he⟩)
    obtain ⟨out, hout, hviews⟩ := hinside mid rest hrow
    exact ⟨_, .embed hword hout, congrArg (Stmt.embed ()) hviews⟩

end

end Stmt

/-! ## Templates -/

/-- An item without its places. -/
def Item.erase (i : Item (Expr Literal P) P) : Item (Expr Literal Unit) Unit :=
  i.map Expr.erase fun _ => ()

theorem Item.Written.derives {i : Item (Expr Literal P) P} {row : List Token}
    (hwritten : i.Written row) (h : i.WellFormed) : Derives row ItemForm Item.erase i.erase := by
  intro ls rest hrow
  cases hwritten with
  | constant place name hvalue =>
    obtain ⟨mid, hword, hrow⟩ := Row.of_cons hrow
    obtain ⟨next, hname, hrow⟩ := hrow.of_cons
    obtain ⟨after, hassign, hrow⟩ := hrow.of_cons
    obtain ⟨out, hout, hview⟩ := hvalue.derives h.2 after rest hrow
    exact ⟨_, .constant hword ⟨hname, h.1.2⟩ hassign hout, congrArg (Item.constant () name) hview⟩
  | stmt hstmt =>
    obtain ⟨out, hout, hview⟩ := hstmt.derives h ls rest hrow
    exact ⟨.stmt out, .stmt hout, congrArg Item.stmt hview⟩

theorem TemplateWritten.derives {items : List (Item (Expr Literal P) P)} {row : List Token}
    (hwritten : TemplateWritten items row) (h : WellFormedTemplate items) :
    Derives row (Repeated ItemForm) (List.map Item.erase) (items.map Item.erase) := by
  obtain ⟨hitems⟩ := hwritten
  exact repeated_derives
    (forall₂_imp_of_mem hitems fun i hi _ hwritten => hwritten.derives (h i hi))

/-- A text with the tokens of a template is read as that template, up to its places. -/
theorem TemplateWritten.exists_parse {items : List (Item (Expr Literal P) P)} {row : List Token}
    (hwritten : TemplateWritten items row) (h : WellFormedTemplate items) {source : String}
    (htokens : tokens source = row ++ [.endOfInput]) :
    ∃ out, parseTemplate source = .ok out ∧ out.map Item.erase = items.map Item.erase := by
  obtain ⟨front, back, hlexemes, hfront, hback⟩ := List.map_eq_append_iff.1 htokens
  obtain ⟨last, rfl, hlast⟩ := List.map_eq_singleton_iff.1 hback
  have hrow : Row row (lexemes source) [last] := by
    rw [hlexemes, ← hfront]
    exact .of_lexemes front [last]
  obtain ⟨out, hout, hviews⟩ := hwritten.derives h _ _ hrow
  exact ⟨out, parseTemplate_eq_ok_iff.2 ⟨hout, hlast⟩, hviews⟩

theorem stableTokens_lexemes (source : String) : StableTokens (lexemes source) :=
  fun _ hlexeme hfinal => stable_of_mem_lexemesFrom hlexeme hfinal

/-- The trees of a text come from its tokens. -/
theorem isFrom_of_parseTemplate {source : String} {items : SourceTemplate}
    (h : parseTemplate source = .ok items) : ∀ i ∈ items, i.IsFrom (lexemes source) :=
  (parseTemplate_eq_ok_iff.1 h).isFrom (stableTokens_lexemes source)

theorem exists_parse_printTemplate {items : List (Item (Expr Literal P) P)}
    (h : WellFormedTemplate items) :
    ∃ out, parseTemplate (printTemplate items) = .ok out ∧
      out.map Item.erase = items.map Item.erase :=
  (templateWritten_spelling h).exists_parse h (tokens_printTemplate h)

/-- Every tree that is read is well formed, and every well-formed tree is read back from its text,
up to its places. -/
theorem parse_print_round_trip :
    (∀ source items, parseTemplate source = .ok items → WellFormedTemplate items) ∧
      ∀ items : List (Item (Expr Literal P) P), WellFormedTemplate items →
        (parseTemplate (printTemplate items)).map (List.map Item.erase) =
          .ok (items.map Item.erase) := by
  refine ⟨fun source items hparse i hi => (isFrom_of_parseTemplate hparse i hi).wellFormed, ?_⟩
  intro items hitems
  obtain ⟨out, hparse, herase⟩ := exists_parse_printTemplate hitems
  rw [hparse, ← herase]
  rfl

/-- A conditional with a product as its alternative. -/
def productBranch : List (Item (Expr Literal Unit) Unit) :=
  [.stmt (.branch () (.var () "a") (.block () []) (some (.expr () (.binary () .multiply
    (.binary () .add (.var () "b") (.var () "c"))
    (.unary () .negate (.binary () .power (.var () "d") (.literal () (.number "2"))))))))]

theorem parse_print_round_trip_productBranch :
    ∃ items, parseTemplate "if ( a ) { } else ( b + c ) * - d ^ 2 ;" = .ok items ∧
      WellFormedTemplate items ∧ items.map Item.erase = productBranch := by
  have htwo : (Token.number "2").IsStable :=
    (scans_iff.2 (rfl : scanToken '2' [] = some ⟨.number "2", ['2'], []⟩)).isStable rfl
  have hnames : ∀ word ∈ ["a", "b", "c", "d"], IsName word := by
    unfold IsName
    decide
  have hwell : WellFormedTemplate productBranch := by
    simp_all [productBranch, WellFormedTemplate, Item.WellFormed, Stmt.WellFormed, Stmt.nodes,
      Stmt.nodesOf?, Stmt.nodesOfAll, Stmt.Fits, Stmt.isOpen, Stmt.exprs, Expr.WellFormed,
      Expr.nodes, Expr.Fits, Literal.token]
  have htext : printTemplate productBranch = "if ( a ) { } else ( b + c ) * - d ^ 2 ;" := by
    decide +kernel
  have hround := parse_print_round_trip.2 productBranch hwell
  rw [htext] at hround
  cases hparse : parseTemplate "if ( a ) { } else ( b + c ) * - d ^ 2 ;" with
  | error e =>
    rw [hparse] at hround
    cases hround
  | ok items =>
    rw [hparse] at hround
    exact ⟨items, rfl, (parse_print_round_trip (P := Unit)).1 _ items hparse, Except.ok.inj hround⟩

end MessageTemplate
