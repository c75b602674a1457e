import MessageTemplate.Proofs.Evaluation.Bare
import MessageTemplate.Proofs.Interference
import MessageTemplate.Proofs.Table

/-!
# Compiling constants

Compiling goes through the items of a template in order. The initializer of a
constant is evaluated where the constants before it are bound over the given
ones and where nothing else is, so it can call nothing but `now`. When compiling
is over, or when it fails at an item, the constants so far have been bound and
all else is as it was; a rendering has the constants of the whole template from
its start on.
-/

namespace MessageTemplate

/-- The name of the constant that an item declares. -/
def Item.constantName? {E P : Type} : Item E P → Option String
  | .constant _ name _ => some name
  | .stmt _ => none

namespace Compile

section

variable (allowance : Nat) (file : String) (clock : Calendar.Instant)

/-- The items are accepted in order, over the seeds: the initializer of each constant has a value
where the constants before it are bound over the seeds. The values are those of the constants. -/
inductive Evaluates : Table Value → SourceTemplate → List (String × Value) → Prop
  | nil {seeds : Table Value} : Evaluates seeds [] []
  | stmt {seeds : Table Value} {s : SourceStmt} {items : SourceTemplate}
      {values : List (String × Value)} {code : Code} (hstmt : Resolve.stmt file s = .ok code)
      (hrest : Evaluates seeds items values) : Evaluates seeds (.stmt s :: items) values
  | constant {seeds : Table Value} {place : Position} {name : String} {e : SourceExpr}
      {items : SourceTemplate} {values : List (String × Value)} {term : Term} {value : Value}
      (hterm : Resolve.expr file e = .ok term)
      (hvalue : Eval.expression allowance term (.initial seeds clock) =
        .ok value (.initial seeds clock))
      (hrest : Evaluates (seeds.insert name value) items values) :
      Evaluates seeds (.constant place name e :: items) ((name, value) :: values)

/-- An item is refused where the given constants are bound. -/
inductive FailsAt (seeds : Table Value) : SourceItem → Stop CompileError → Prop
  | stmt {s : SourceStmt} {error : CompileError} (h : Resolve.stmt file s = .error error) :
      FailsAt seeds (.stmt s) (.failed error)
  | literal {place : Position} {name : String} {e : SourceExpr} {error : CompileError}
      (h : Resolve.expr file e = .error error) :
      FailsAt seeds (.constant place name e) (.failed error)
  | initializer {place : Position} {name : String} {e : SourceExpr} {term : Term}
      {stop : Stop RuntimeError} (hterm : Resolve.expr file e = .ok term)
      (h : Eval.expression allowance term (.initial seeds clock) =
        .error stop (.initial seeds clock)) :
      FailsAt seeds (.constant place name e) (constantStop ⟨file, place⟩ stop)

end

variable {allowance : Nat} {file : String} {clock : Calendar.Instant} {seeds : Table Value}

/-! ## Initializers -/

/-- In the first state the outermost scope is the current one. -/
theorem constantValue_of_ok {here : Location} {term : Term} {value : Value}
    (h : Eval.expression allowance term (.initial seeds clock) =
      .ok value (.initial seeds clock)) :
    constantValue allowance here term (.initial seeds clock) =
      .ok value (.initial seeds clock) := by
  apply Run.adaptExcept_of_ok
  change Eval.expression allowance term ((State.initial seeds clock).editChain fun chain =>
    ⟨chain.outermost, []⟩) = _ at h
  rw [Eval.atRoot, h]
  rfl

theorem constantValue_of_error {here : Location} {term : Term} {stop : Stop RuntimeError}
    (h : Eval.expression allowance term (.initial seeds clock) =
      .error stop (.initial seeds clock)) :
    constantValue allowance here term (.initial seeds clock) =
      .error (constantStop here stop) (.initial seeds clock) := by
  apply Run.adaptExcept_of_error
  change Eval.expression allowance term ((State.initial seeds clock).editChain fun chain =>
    ⟨chain.outermost, []⟩) = _ at h
  rw [Eval.atRoot, h]
  rfl

/-! ## Items -/

theorem ofResolved_of_ok {α : Type} {result : Resolve.Resolved α} {value : α}
    (h : result = .ok value) (state : State) : ofResolved result state = .ok value state := by
  rw [h]
  rfl

theorem ofResolved_of_error {α : Type} {result : Resolve.Resolved α} {error : CompileError}
    (h : result = .error error) (state : State) :
    ofResolved result state = .error (.failed error) state := by
  rw [h]
  rfl

theorem item_stmt_of_ok {s : SourceStmt} {code : Code} (h : Resolve.stmt file s = .ok code) :
    item allowance file (.stmt s) (.initial seeds clock) = .ok code (.initial seeds clock) :=
  ofResolved_of_ok h _

/-- A constant leaves an empty statement. -/
theorem item_constant_of_ok {place : Position} {name : String} {e : SourceExpr} {term : Term}
    {value : Value} (hterm : Resolve.expr file e = .ok term)
    (hvalue : Eval.expression allowance term (.initial seeds clock) =
      .ok value (.initial seeds clock)) :
    item allowance file (.constant place name e) (.initial seeds clock) =
      .ok (.empty ⟨file, place⟩) (.initial (seeds.insert name value) clock) := by
  rw [item, Run.bind_of_ok (ofResolved_of_ok hterm _), Run.bind_of_ok (constantValue_of_ok hvalue)]
  rfl

theorem item_of_failsAt {i : SourceItem} {stop : Stop CompileError}
    (h : FailsAt allowance file clock seeds i stop) :
    item allowance file i (.initial seeds clock) = .error stop (.initial seeds clock) := by
  cases h with
  | stmt h => exact ofResolved_of_error h _
  | literal h => exact Run.bind_of_error (ofResolved_of_error h _)
  | initializer hterm h =>
    rw [item, Run.bind_of_ok (ofResolved_of_ok hterm _),
      Run.bind_of_error (constantValue_of_error h)]

/-- Without constants the first fault that is written is the failure. -/
theorem template_stmts (allowance : Nat) (file : String) (body : List SourceStmt) (state : State) :
    template allowance file (body.map .stmt) state =
      ofResolved (Resolve.firstOr (body.map (Stmt.ready file)) (body.flatMap (Stmt.faults file)))
        state := by
  induction body with
  | nil => rfl
  | cons s body ih =>
    have hfirst : item allowance file (.stmt s) state =
        ofResolved (Resolve.firstOr (s.ready file) (s.faults file)) state := by
      rw [item, Resolve.stmt_reports s]
    rw [List.map_cons, template, List.flatMap_cons, List.map_cons]
    cases hfaults : s.faults file with
    | cons error more =>
      rw [hfaults] at hfirst
      exact Run.bind_of_error hfirst
    | nil =>
      rw [hfaults] at hfirst
      rw [Run.bind_of_ok hfirst]
      cases hrest : body.flatMap (Stmt.faults file) with
      | nil =>
        rw [hrest] at ih
        rw [Run.bind_of_ok ih]
        rfl
      | cons error more =>
        rw [hrest] at ih
        exact Run.bind_of_error ih

/-- Items are compiled one after another. -/
theorem template_append (allowance : Nat) (file : String) (front back : SourceTemplate) :
    template allowance file (front ++ back) = (do
      let code ← template allowance file front
      return code ++ (← template allowance file back)) := by
  induction front with
  | nil => simp [template]
  | cons i front ih => simp [template, ih]

namespace Evaluates

variable {items : SourceTemplate} {values : List (String × Value)}

/-- What is evaluated in order is what compiling computes. -/
theorem template_run (h : Evaluates allowance file clock seeds items values) :
    template allowance file items (.initial seeds clock) =
      .ok (items.map (Item.code file)) (.initial (seeds.insertMany values) clock) := by
  induction h with
  | nil => rfl
  | @stmt seeds s items values code hstmt hrest ih =>
    rw [template, Run.bind_of_ok (item_stmt_of_ok hstmt), Run.bind_of_ok ih,
      Resolve.stmt_makes s code hstmt]
    rfl
  | constant hterm hvalue hrest ih =>
    rw [template, Run.bind_of_ok (item_constant_of_ok hterm hvalue), Run.bind_of_ok ih]
    rfl

/-- Compiling fails at the first item that is refused. -/
theorem template_error (h : Evaluates allowance file clock seeds items values) {i : SourceItem}
    {stop : Stop CompileError}
    (hfails : FailsAt allowance file clock (seeds.insertMany values) i stop)
    (back : SourceTemplate) :
    template allowance file (items ++ i :: back) (.initial seeds clock) =
      .error stop (.initial (seeds.insertMany values) clock) := by
  induction h with
  | nil => exact Run.bind_of_error (item_of_failsAt hfails)
  | stmt hstmt hrest ih =>
    rw [List.cons_append, template, Run.bind_of_ok (item_stmt_of_ok hstmt)]
    exact Run.bind_of_error (ih hfails)
  | constant hterm hvalue hrest ih =>
    rw [List.cons_append, template, Run.bind_of_ok (item_constant_of_ok hterm hvalue)]
    exact Run.bind_of_error (ih hfails)

theorem names (h : Evaluates allowance file clock seeds items values) :
    values.map Prod.fst = items.filterMap Item.constantName? := by
  induction h with
  | nil => rfl
  | stmt hstmt hrest ih => exact ih
  | constant hterm hvalue hrest ih => exact congrArg (List.cons _) ih

/-- No function of the template is there yet for an initializer to call. -/
theorem calledNames (h : Evaluates allowance file clock seeds items values) {place : Position}
    {name : String} {e : SourceExpr} (hmem : .constant place name e ∈ items) :
    ∀ called ∈ e.calledNames, called = "now" := by
  induction h with
  | nil => contradiction
  | stmt hstmt hrest ih =>
    rcases List.mem_cons.1 hmem with heq | hmem
    · contradiction
    · exact ih hmem
  | constant hterm hvalue hrest ih =>
    rcases List.mem_cons.1 hmem with heq | hmem
    · obtain ⟨rfl, rfl, rfl⟩ := Item.constant.inj heq
      rw [← Expr.calledNames_map Literal.denoted (Location.mk file) e]
      rw [Resolve.expr_makes e _ hterm] at hvalue
      exact Eval.term_requires_calledNames _ _ _ _ (State.isBare_initial _ _) hvalue
    · exact ih hmem

end Evaluates

/-- An initializer has a value or stops, and changes nothing. -/
theorem expression_initial (allowance : Nat) (term : Term) (seeds : Table Value)
    (clock : Calendar.Instant) :
    (∃ value, Eval.expression allowance term (.initial seeds clock) =
      .ok value (.initial seeds clock)) ∨
    ∃ stop, Eval.expression allowance term (.initial seeds clock) =
      .error stop (.initial seeds clock) := by
  have hafter : Eval.after (Eval.expression allowance term) (.initial seeds clock) =
      .initial seeds clock :=
    Eval.term_staysBare allowance term _ (State.isBare_initial seeds clock)
  rw [Eval.after] at hafter
  cases hrun : Eval.expression allowance term (.initial seeds clock) with
  | ok value mid =>
    rw [hrun] at hafter
    exact .inl ⟨value, by rw [← hafter]⟩
  | error stop mid =>
    rw [hrun] at hafter
    exact .inr ⟨stop, by rw [← hafter]⟩

/-- Either all items are accepted or one of them is the first that is refused. -/
theorem evaluates_or_fails (allowance : Nat) (file : String) (clock : Calendar.Instant)
    (items : SourceTemplate) (seeds : Table Value) :
    (∃ values, Evaluates allowance file clock seeds items values) ∨
      ∃ front i back values stop, items = front ++ i :: back ∧
        Evaluates allowance file clock seeds front values ∧
        FailsAt allowance file clock (seeds.insertMany values) i stop := by
  induction items generalizing seeds with
  | nil => exact .inl ⟨[], .nil⟩
  | cons i items ih =>
    cases i with
    | stmt s =>
      cases hstmt : Resolve.stmt file s with
      | error error => exact .inr ⟨[], _, items, [], _, rfl, .nil, .stmt hstmt⟩
      | ok code =>
        rcases ih seeds with ⟨values, hvalues⟩ | ⟨front, i, back, values, stop, rfl, hfront, hfails⟩
        · exact .inl ⟨values, .stmt hstmt hvalues⟩
        · exact .inr ⟨_ :: front, i, back, values, stop, rfl, .stmt hstmt hfront, hfails⟩
    | constant place name e =>
      cases hterm : Resolve.expr file e with
      | error error => exact .inr ⟨[], _, items, [], _, rfl, .nil, .literal hterm⟩
      | ok term =>
        rcases expression_initial allowance term seeds clock with ⟨value, hvalue⟩ | ⟨stop, hstop⟩
        · rcases ih (seeds.insert name value) with
            ⟨values, hvalues⟩ | ⟨front, i, back, values, stop, rfl, hfront, hfails⟩
          · exact .inl ⟨_, .constant hterm hvalue hvalues⟩
          · exact .inr ⟨_ :: front, i, back, _, stop, rfl, .constant hterm hvalue hfront, hfails⟩
        · exact .inr ⟨[], _, items, [], _, rfl, .nil, .initializer hterm hstop⟩

end Compile

theorem Session.compile_eq {name source : String} {items : SourceTemplate}
    (h : MessageTemplate.parse name source = .ok items) (allowance : Nat) :
    compile allowance name source =
      (Compile.template allowance name items).adaptExcept (Stop.map .compile) := by
  rw [compile, Session.parse, h]
  rfl

/-- A template text that can be read is either compiled as a whole or up to its first item that is
refused. The items so far have been evaluated in order, each initializer over the constants before
it; their constants, the last one of each name, have been put over the seeds, and nothing else has
changed. A rendering has the constants of the whole template in all states that it passes. No
initializer that is evaluated calls anything but `now`, anywhere in it. -/
theorem compile_constants (allowance : Nat) (name source : String) (seeds : Table Value)
    (clock : Calendar.Instant) (items : SourceTemplate) (hparse : parse name source = .ok items) :
    ((∃ values template, Compile.Evaluates allowance name clock seeds items values ∧
        template.constants.Overwrites seeds values ∧
        Session.compile allowance name source (.initial seeds clock) =
          .ok template.code (.initial template.constants clock) ∧
        Template.compile allowance name source seeds clock = .ok template ∧
        ∀ (rounds : Nat) (now : Calendar.Instant) (state : State),
          (template.rendering rounds).Passes (template.start now) state →
          state.constants = template.constants) ∨
      ∃ front i back values stop table, items = front ++ i :: back ∧
        Compile.Evaluates allowance name clock seeds front values ∧
        table.Overwrites seeds values ∧
        Compile.FailsAt allowance name clock table i stop ∧
        Session.compile allowance name source (.initial seeds clock) =
          .error (stop.map .compile) (.initial table clock) ∧
        Template.compile allowance name source seeds clock = .error (stop.map .compile)) ∧
    ∀ front values, Compile.Evaluates allowance name clock seeds front values →
      values.map Prod.fst = front.filterMap Item.constantName? ∧
      ∀ place x e, .constant place x e ∈ front → ∀ called ∈ e.calledNames, called = "now" := by
  constructor
  · rw [Session.compile_eq hparse]
    rcases Compile.evaluates_or_fails allowance name clock items seeds with
      ⟨values, hvalues⟩ | ⟨front, i, back, values, stop, rfl, hfront, hfails⟩
    · have hrun := hvalues.template_run
      exact .inl ⟨values, ⟨name, items.map (Item.code name), seeds.insertMany values⟩, hvalues,
        Table.overwrites_insertMany seeds values, Run.adaptExcept_of_ok hrun,
        Template.compile_of_template hparse hrun, fun rounds now state h => h.constants⟩
    · have hrun := hfront.template_error hfails back
      exact .inr ⟨front, i, back, values, stop, seeds.insertMany values, rfl, hfront,
        Table.overwrites_insertMany seeds values, hfails, Run.adaptExcept_of_error hrun,
        Template.compile_of_template_error hparse hrun⟩
  · intro front values hvalues
    exact ⟨hvalues.names, fun place x e hmem => hvalues.calledNames hmem⟩

/-- Constants that are computed from a seed, from the time, and anew. -/
def threeConstants : String := "const x = a; const a = now(); const x = a;"

theorem compile_constants_threeConstants :
    ∃ (items : SourceTemplate) (values : List (String × Value)) (template : Template),
      parse "t" threeConstants = .ok items ∧
      Compile.Evaluates 1 "t" .newMonth givenConstant items values ∧
      values.map Prod.fst = ["x", "a", "x"] ∧
      template.constants.Overwrites givenConstant values ∧
      (template.constants.get? "x").map Value.kind = some .instant ∧
      Session.compile 1 "t" threeConstants (.initial givenConstant .newMonth) =
        .ok template.code (.initial template.constants .newMonth) ∧
      (template.rendering 1).Passes (template.start .newMonth) (template.start .newMonth) ∧
      (template.start .newMonth).constants = template.constants := by
  have hnames : ((parse "t" threeConstants).toOption.any fun items =>
      items.filterMap Item.constantName? = ["x", "a", "x"]) = true := by
    decide +kernel
  have hcompiled : ((Template.compile 1 "t" threeConstants givenConstant .newMonth).toOption.any
      fun template => (template.constants.get? "x").map Value.kind = some .instant) = true := by
    decide +kernel
  cases hparse : parse "t" threeConstants with
  | error error =>
    rw [hparse] at hnames
    contradiction
  | ok items =>
    rw [hparse] at hnames
    obtain ⟨houtcome, hevaluates⟩ :=
      compile_constants 1 "t" threeConstants givenConstant .newMonth items hparse
    rcases houtcome with ⟨values, template, hvalues, htable, hsession, htemplate, hpasses⟩ |
      ⟨_, _, _, _, _, _, _, _, _, _, _, htemplate⟩
    · rw [htemplate] at hcompiled
      have hstart : (template.rendering 1).Passes (template.start .newMonth)
          (template.start .newMonth) := .step .self (.here _ _)
      exact ⟨items, values, template, rfl, hvalues,
        (hevaluates items values hvalues).1.trans (of_decide_eq_true hnames), htable,
        of_decide_eq_true hcompiled, hsession, hstart, hpasses 1 .newMonth _ hstart⟩
    · rw [htemplate] at hcompiled
      contradiction

end MessageTemplate
