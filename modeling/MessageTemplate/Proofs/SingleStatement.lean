import MessageTemplate.Proofs.Evaluation.Keeping
import MessageTemplate.Proofs.Interference

/-!
# Templates of one statement

What an expression computes and what a statement writes is said here of the
trees without places, for all the ways to place them. A text that is read as a
single statement makes the document that this statement writes, under any label
and whatever is given to it (`Template.outcome_of_writes`).
-/

namespace MessageTemplate

/-- Wherever it is placed, the expression is made ready and has the value, and the state stays. -/
def Expr.Computes (call : Eval.Caller) (state : State) (e : Expr Literal Unit) (value : Value) :
    Prop :=
  ∀ (file : String) (placed : SourceExpr), placed.erase = e.erase →
    ∃ term, Resolve.expr file placed = .ok term ∧ Eval.term call term state = .ok value state

/-- Wherever it is placed, the statement is made ready and leaves the document. -/
def Stmt.Writes (rounds : Nat) (state : State) (s : Stmt (Expr Literal Unit) Unit)
    (document : Document) : Prop :=
  ∀ (file : String) (placed : SourceStmt), placed.erase = s.erase →
    ∃ code after, Resolve.stmt file placed = .ok code ∧
      Eval.stmt (Eval.callWithin rounds) rounds code state = .ok () after ∧
      after.document = document

/-! ## Expressions -/

namespace Expr.Computes

variable {call : Eval.Caller} {state : State}

theorem literal {l : Literal} {value : Value} (h : l.value = .ok value) :
    Computes call state (.literal () l) value := by
  intro file placed herase
  cases placed with
  | literal place written =>
    obtain rfl : written = l := (Expr.literal.inj herase).2
    refine ⟨.literal ⟨file, place⟩ value, ?_, rfl⟩
    rw [Resolve.expr, Resolve.literal, h]
    rfl
  | _ => cases herase

/-- A text on the left of `+` takes the text of what is on the right. -/
theorem add {left right : Expr Literal Unit} {text : String} {value : Value}
    (hleft : Computes call state left (.string text)) (hright : Computes call state right value) :
    Computes call state (.binary () .add left right) (.string (text ++ value.text)) := by
  intro file placed herase
  cases placed with
  | binary place op first second =>
    obtain ⟨-, rfl, hfirst, hsecond⟩ := Expr.binary.inj herase
    obtain ⟨firstTerm, hreadyFirst, hrunFirst⟩ := hleft file first hfirst
    obtain ⟨secondTerm, hreadySecond, hrunSecond⟩ := hright file second hsecond
    refine ⟨.binary ⟨file, place⟩ .add firstTerm secondTerm, ?_, ?_⟩
    · rw [Resolve.expr, hreadyFirst, hreadySecond]
      rfl
    · apply Eval.located_of_ok
      rw [Run.bind_of_ok hrunFirst, Run.bind_of_ok hrunSecond]
      rfl
  | _ => cases herase

end Expr.Computes

/-- The clock is asked in a scope of its own, and then this scope is closed. -/
theorem Expr.computes_now (rounds : Nat) (constants : Table Value) (clock : Calendar.Instant) :
    Computes (Eval.callWithin (rounds + 1)) (.initial constants clock) (.call () "now" [])
      (.instant clock) := by
  intro file placed herase
  cases placed with
  | call place name arguments =>
    obtain ⟨-, rfl, harguments⟩ := Expr.call.inj herase
    cases arguments with
    | nil => exact ⟨.call ⟨file, place⟩ "now" [], rfl, rfl⟩
    | cons first rest => cases harguments
  | _ => cases herase

/-! ## Statements -/

/-- An embed statement with one part does what this part does. -/
theorem Eval.stmt_singlePart {call : Eval.Caller} {rounds : Nat} {here : Location}
    {part : EmbedPart Term Location} {state after : State}
    (h : Eval.embedPart call part state = .ok () after) :
    Eval.stmt call rounds (.embed here [part]) state = .ok () after := by
  rw [Eval.stmt]
  change (Eval.embedPart call part >>= fun _ => Pure.pure ⟨⟩ : Eval PUnit) state = _
  rw [Run.bind_of_ok h]
  rfl

namespace Stmt.Writes

variable {rounds : Nat} {state : State} {e : Expr Literal Unit} {value : Value}

theorem text {content : String} (hvalue : value.text? = some content)
    (h : e.Computes (Eval.callWithin rounds) state value) :
    Writes rounds state (.text () e) { state.document with content := some content } := by
  intro file placed herase
  cases placed with
  | text place written =>
    obtain ⟨term, hready, hrun⟩ := h file written (Stmt.text.inj herase).2
    refine ⟨.text ⟨file, place⟩ term,
      state.editDocument fun document => { document with content := some content }, ?_, ?_, rfl⟩
    · rw [Resolve.stmt, hready]
      rfl
    · rw [Eval.stmt]
      apply Eval.located_of_ok
      have htext : Eval.text? (Eval.callWithin rounds) term state = .ok (some content) state := by
        rw [Eval.text?, Run.bind_of_ok hrun, hvalue]
        rfl
      rw [Eval.writeContent, Run.bind_of_ok htext]
      rfl
  | _ => cases herase

theorem member {key : EmbedMember} {edit : Embed → Embed}
    (hvalue : Eval.memberEdit key value = .ok (some edit))
    (h : e.Computes (Eval.callWithin rounds) state value) :
    Writes rounds state (.embed () [⟨(), .member key e⟩]) (state.document.editEmbed edit) := by
  intro file placed herase
  cases placed with
  | embed place parts =>
    obtain ⟨⟨partPlace, body⟩, rfl, hpart⟩ := List.map_eq_singleton_iff.1 (Stmt.embed.inj herase).2
    cases body with
    | member other written =>
      obtain ⟨rfl, hwritten⟩ := PartBody.member.inj (EmbedPart.mk.inj hpart).2
      obtain ⟨term, hready, hrun⟩ := h file written hwritten
      refine ⟨.embed ⟨file, place⟩ [⟨⟨file, partPlace⟩, .member other term⟩],
        state.editDocument fun document => document.editEmbed edit, ?_, ?_, rfl⟩
      · have hbody : Resolve.partBody file (.member other written) = .ok (.member other term) := by
          rw [Resolve.partBody, hready]
          rfl
        rw [Resolve.stmt, List.mapM_cons, Resolve.embedPart, hbody]
        rfl
      · have hwrite : Eval.writeMember (Eval.callWithin rounds) other term state =
            .ok () (state.editDocument fun document => document.editEmbed edit) := by
          rw [Eval.writeMember, Run.bind_of_ok hrun, hvalue]
          rfl
        exact Eval.stmt_singlePart (Eval.located_of_ok hwrite)
    | _ => cases (EmbedPart.mk.inj hpart).2
  | _ => cases herase

end Stmt.Writes

/-! ## Templates -/

variable {s : Stmt (Expr Literal Unit) Unit} {row : List Token} {source : String}

theorem exists_parse_stmt (hwritten : s.Written row) (hwell : s.WellFormed)
    (htokens : tokens source = row ++ [.endOfInput]) :
    ∃ placed : SourceStmt, parseTemplate source = .ok [.stmt placed] ∧ placed.erase = s.erase := by
  have htemplate : TemplateWritten [Item.stmt s] row := by
    have hrow := TemplateWritten.mk (.cons (.stmt hwritten) .nil)
    rwa [List.flatten_cons, List.flatten_nil, List.append_nil] at hrow
  obtain ⟨out, hparse, herase⟩ := htemplate.exists_parse (by simpa [WellFormedTemplate]) htokens
  obtain ⟨first, rest, rfl, hfirst, hrest⟩ := List.map_eq_cons_iff.1 herase
  obtain rfl : rest = [] := by simpa using hrest
  cases first with
  | constant place name value => cases hfirst
  | stmt placed => exact ⟨placed, hparse, Item.stmt.inj hfirst⟩

/-- What a template does whose text is read as one statement. -/
theorem Template.outcome_of_writes {rounds : Nat} {constants : Table Value}
    {rendered : Calendar.Instant} {document : Document} (hwritten : s.Written row)
    (hwell : s.WellFormed) (htokens : tokens source = row ++ [.endOfInput])
    (hwrites : s.Writes rounds (.initial constants rendered) document) (allowance : Nat)
    (name : String) (compiled : Calendar.Instant) :
    outcome allowance rounds name source constants compiled rendered = .ok document := by
  obtain ⟨placed, hparse, herase⟩ := exists_parse_stmt hwritten hwell htokens
  obtain ⟨code, after, hready, hrun, rfl⟩ := hwrites name placed herase
  have hnamed : parse name source = .ok [.stmt placed] := by
    rw [parse, hparse]
    rfl
  have hcompiled : Compile.template allowance name [.stmt placed] (.initial constants compiled) =
      .ok [code] (.initial constants compiled) := by
    rw [Compile.template, Compile.item, hready]
    rfl
  have hrendered : Session.run rounds [code] (.initial constants rendered) = .ok () after := by
    apply Run.adaptExcept_of_ok
    rw [Eval.program, Eval.stmts, Run.bind_of_ok hrun]
    rfl
  rw [outcome, compile_of_template hnamed hcompiled]
  change render rounds ⟨name, [code], constants⟩ rendered = _
  rw [render, hrendered]

end MessageTemplate
