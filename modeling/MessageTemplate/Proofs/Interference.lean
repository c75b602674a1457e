import MessageTemplate.Proofs.Evaluation.Alike
import MessageTemplate.Proofs.Positions
import MessageTemplate.Proofs.Resolution.Shape

/-!
# What a document depends on

The code of a template depends on its text alone. Of the constants that are
given, only those count whose names are read somewhere in the template, both
while the constants of the template are computed and while it is rendered; and
the time counts only if `now` is called somewhere.
-/

namespace MessageTemplate

/-! ## The code of a template -/

/-- The code of an item that is not refused. -/
def Item.code (file : String) : SourceItem → Code
  | .constant place _ _ => .empty ⟨file, place⟩
  | .stmt s => s.ready file

namespace Compile

variable {α β : Type} {q : α → Prop} {file : String}

/-- Each answer of the run satisfies a condition. -/
def Answers (q : α → Prop) (run : Compile α) : Prop :=
  ∀ state value after, run state = .ok value after → q value

namespace Answers

theorem pure {value : α} (h : q value) : Answers q (Pure.pure value) := by
  intro state answer after hrun
  rwa [← (EStateM.Result.ok.inj hrun).1]

theorem bind {q' : β → Prop} {run : Compile α} {next : α → Compile β} (h : Answers q run)
    (hnext : ∀ value, q value → Answers q' (next value)) : Answers q' (run >>= next) := by
  intro state answer after hrun
  change EStateM.bind run next state = .ok answer after at hrun
  unfold EStateM.bind at hrun
  cases hfirst : run state with
  | ok value mid =>
    rw [hfirst] at hrun
    exact hnext value (h state value mid hfirst) mid answer after hrun
  | error stop mid =>
    rw [hfirst] at hrun
    contradiction

theorem skip {q' : β → Prop} {run : Compile α} {next : α → Compile β}
    (hnext : ∀ value, Answers q' (next value)) : Answers q' (run >>= next) :=
  bind (q := fun _ => True) (fun _ _ _ _ => trivial) fun value _ => hnext value

theorem ofResolved {made : α} {result : Resolve.Resolved α} (h : Resolve.Makes made result) :
    Answers (· = made) (ofResolved result) := by
  intro state answer after hrun
  cases result with
  | ok value =>
    rw [← (EStateM.Result.ok.inj hrun).1]
    exact h value rfl
  | error error => contradiction

end Answers

theorem item_answers (allowance : Nat) (i : SourceItem) :
    Answers (· = i.code file) (item allowance file i) := by
  cases i with
  | stmt s => exact .ofResolved (Resolve.stmt_makes s)
  | constant place name value =>
    apply Answers.skip
    intro term
    apply Answers.skip
    intro result
    apply Answers.skip
    intro _
    exact .pure rfl

/-- The code does not depend on the constants, on the time, or on what is computed meanwhile. -/
theorem template_answers (allowance : Nat) (items : SourceTemplate) :
    Answers (· = items.map (Item.code file)) (template allowance file items) := by
  induction items with
  | nil => exact .pure rfl
  | cons i items ih =>
    rw [template]
    refine (item_answers allowance i).bind ?_
    rintro _ rfl
    refine ih.bind ?_
    rintro _ rfl
    exact .pure rfl

/-! ## Compiling with constants that agree -/

open Run (Alike EndAlike)

variable {names : Names}

theorem ofResolved_alike {R : State → State → Prop} (result : Resolve.Resolved α) :
    Alike R (ofResolved result) := by
  cases result with
  | ok value => exact .pure value
  | error error => exact .throw _

theorem setConstant_alike (name : String) (value : Value) :
    Alike (Agree names)
      (modify fun state => state.setConstant name value : Compile PUnit) := by
  apply Alike.modify
  intro first second hagree
  refine ⟨hagree.chain, hagree.document, ?_, hagree.clock, hagree.functions⟩
  intro other hother
  rw [State.setConstant, State.setConstant, Table.get?_insert, Table.get?_insert,
    hagree.constants other hother]

theorem atRoot_alike {run : Eval α} (h : Alike (Agree names) run) :
    Alike (Agree names) (Eval.atRoot run) := by
  intro first second hagree
  have hends := h _ _ (hagree.editChain hagree.functions.atRoot)
  unfold Eval.atRoot
  rw [← hagree.chain]
  generalize run (first.editChain fun chain => ⟨chain.outermost, []⟩) = firstEnd at hends
  generalize run (second.editChain fun chain => ⟨chain.outermost, []⟩) = secondEnd at hends
  cases hends with
  | ok value hafter =>
    exact .ok value (hafter.editChain (hagree.functions.restore hafter.functions))
  | error stop hafter =>
    exact .error stop (hafter.editChain (hagree.functions.restore hafter.functions))

theorem item_alike (allowance : Nat) {i : SourceItem} (h : ∀ e ∈ i.allExprs, e.Within names) :
    Alike (Agree names) (item allowance file i) := by
  cases i with
  | stmt s => exact ofResolved_alike _
  | constant place name value =>
    have hvalue : (value.ready file).Within names := (h value (by simp [Item.allExprs])).map _ _
    -- Both runs compute the same term, since making it ready does not look at the state.
    have hresolved : Resolve.Makes (value.ready file) (Resolve.expr file value) :=
      Resolve.expr_makes value
    rw [item]
    cases hterm : Resolve.expr file value with
    | error error => exact fun _ _ hagree => .error _ hagree
    | ok term =>
      rw [hresolved term hterm]
      have hcomputed := atRoot_alike (Eval.expression_alike allowance hvalue)
      apply Alike.bind (hcomputed.adaptExcept (constantStop ⟨file, place⟩))
      intro result
      exact .bind (setConstant_alike name result) fun _ => .pure _

theorem template_alike (allowance : Nat) {items : SourceTemplate}
    (h : ∀ i ∈ items, ∀ e ∈ i.allExprs, e.Within names) :
    Alike (Agree names) (template allowance file items) := by
  induction items with
  | nil => exact .pure _
  | cons i items ih =>
    rw [List.forall_mem_cons] at h
    rw [template]
    apply Alike.bind (item_alike allowance h.1)
    intro code
    exact .bind (ih h.2) fun _ => .pure _

end Compile

/-! ## The names of a template -/

/-- The names that a template reads and calls. -/
def namesOf (items : SourceTemplate) : Names where
  reads := fun name => name ∈ readNames items
  calls := fun name => name ∈ calledNames items

theorem within_namesOf {items : SourceTemplate} {i : SourceItem} (hi : i ∈ items) :
    ∀ e ∈ i.allExprs, e.Within (namesOf items) := by
  intro e he
  constructor
  · intro name hname
    exact List.mem_flatMap.2 ⟨i, hi, List.mem_flatMap.2 ⟨e, he, hname⟩⟩
  · intro name hname
    exact List.mem_flatMap.2 ⟨i, hi, List.mem_flatMap.2 ⟨e, he, hname⟩⟩

theorem Item.code_within {names : Names} {file : String} {i : SourceItem}
    (h : ∀ e ∈ i.allExprs, e.Within names) : (i.code file).Within names := by
  cases i with
  | constant place name value =>
    exact Stmt.within_iff.2 ⟨by simp [code, Stmt.exprs], by simp [code, Stmt.children]⟩
  | stmt s =>
    rw [code, Stmt.Within, Stmt.ready, Stmt.allExprs_map, List.forall_mem_map]
    exact fun e he => (h e he).map _ _

/-! ## Rendering -/

namespace Template

variable {name source : String}

/-- Rendering cannot tell constants apart that agree on the names in the code. -/
theorem render_eq {names : Names} {code : List Code} (hcode : ∀ s ∈ code, Stmt.Within names s)
    {constants others : Table Value} {clock now : Calendar.Instant}
    (h : Agree names (.initial constants clock) (.initial others now)) (rounds : Nat) :
    render rounds ⟨name, code, constants⟩ clock = render rounds ⟨name, code, others⟩ now := by
  have hends := (Eval.program_alike rounds hcode).adaptExcept (Stop.map Failure.runtime) _ _ h
  change Run.EndAlike _ (Session.run rounds code _) (Session.run rounds code _) at hends
  unfold render
  generalize Session.run rounds code (.initial constants clock) = firstEnd at hends
  generalize Session.run rounds code (.initial others now) = secondEnd at hends
  cases hends with
  | ok value hafter => exact congrArg Except.ok hafter.document
  | error stop hafter => rfl

/-- The document of a template text, compiled at one time and rendered at another, or why there is
none. -/
def outcome (allowance rounds : Nat) (name source : String) (constants : Table Value)
    (compiled rendered : Calendar.Instant) : Except (Stop Failure) Document := do
  let template ← compile allowance name source constants compiled
  render rounds template rendered

theorem outcome_of_parse_error {error : ParseError} (h : parse name source = .error error)
    (allowance rounds : Nat) (constants : Table Value) (compiled rendered : Calendar.Instant) :
    outcome allowance rounds name source constants compiled rendered =
      .error (.failed (.parse error)) := by
  rw [outcome, compile_of_parse_error h]
  rfl

/-- The outcome for a text that can be read. -/
theorem outcome_eq (allowance rounds : Nat) {items : SourceTemplate}
    (hparse : parse name source = .ok items) {first second : Table Value}
    {compiled rendered compiledAgain renderedAgain : Calendar.Instant}
    (hconstants : ∀ x ∈ readNames items, first.get? x = second.get? x)
    (hcompiled : "now" ∈ calledNames items → compiled = compiledAgain)
    (hrendered : "now" ∈ calledNames items → rendered = renderedAgain) :
    outcome allowance rounds name source first compiled rendered =
      outcome allowance rounds name source second compiledAgain renderedAgain := by
  have hinitial : Agree (namesOf items) (.initial first compiled) (.initial second compiledAgain) :=
    .initial hconstants hcompiled
  have halike : Run.Alike (Agree (namesOf items)) (Compile.template allowance name items) :=
    Compile.template_alike allowance fun i => within_namesOf
  have hends := halike _ _ hinitial
  rw [outcome, outcome]
  generalize hfirst : Compile.template allowance name items (.initial first compiled) = firstEnd
    at hends
  generalize hsecond : Compile.template allowance name items (.initial second compiledAgain) =
    secondEnd at hends
  cases hends with
  | error stop hmid =>
    rw [compile_of_template_error hparse hfirst, compile_of_template_error hparse hsecond]
    rfl
  | ok code hmid =>
    have hcode : ∀ s ∈ code, Stmt.Within (namesOf items) s := by
      rw [Compile.template_answers allowance items _ _ _ hfirst, List.forall_mem_map]
      exact fun i hi => i.code_within (within_namesOf hi)
    rw [compile_of_template hparse hfirst, compile_of_template hparse hsecond]
    -- The constants that compiling leaves agree as those that were given do.
    exact render_eq hcode (.initial hmid.constants hrendered) rounds

end Template

/-- Of the constants that are given, only those whose names are read as variables somewhere in the
template have a bearing on its document, or on the failure in place of one, with its message and
place. Without a call of `now`, neither has the time at which it is compiled or rendered. -/
theorem unused_noninterference (allowance rounds : Nat) (name source : String)
    (first second : Table Value) (compiled rendered : Calendar.Instant)
    (hconstants : ∀ items, parseTemplate source = .ok items →
      ∀ x ∈ readNames items, first.get? x = second.get? x) :
    Template.outcome allowance rounds name source first compiled rendered =
      Template.outcome allowance rounds name source second compiled rendered ∧
    ((∀ items, parseTemplate source = .ok items → "now" ∉ calledNames items) →
      ∀ compiledAgain renderedAgain : Calendar.Instant,
        Template.outcome allowance rounds name source first compiled rendered =
          Template.outcome allowance rounds name source second compiledAgain renderedAgain) := by
  cases hparse : parseTemplate source with
  | error fault =>
    have hname : parse name source = .error ⟨fault.fault, some ⟨name, fault.position⟩⟩ := by
      rw [parse, hparse]
      rfl
    simp only [Template.outcome_of_parse_error hname, implies_true, and_self]
  | ok items =>
    have hname : parse name source = .ok items := by
      rw [parse, hparse]
      rfl
    have hnames := hconstants items hparse
    refine ⟨Template.outcome_eq allowance rounds hname hnames (fun _ => rfl) fun _ => rfl, ?_⟩
    intro hnow compiledAgain renderedAgain
    have hunused := hnow items rfl
    exact Template.outcome_eq allowance rounds hname hnames (fun h => absurd h hunused)
      fun h => absurd h hunused

/-- A template with a constant of its own, made of one that is given. -/
def derivedConstant : String := "const c = a; function f(v) \x7b text v; \x7d f(c);"

/-- The constant that it is made of. -/
def givenConstant : Table Value := .ofList [("a", .bool true)]

/-- The first instant of the month after `Calendar.Instant.newMonth`. -/
def nextMonth : Calendar.Instant :=
  ⟨.firstOf 2024 4 (by decide), Calendar.Instant.newMonth.time⟩

theorem unused_noninterference_derivedConstant :
    (∀ items, parseTemplate derivedConstant = .ok items →
      ∀ x ∈ readNames items, givenConstant.get? x = (givenConstant.insert "b" .null).get? x) ∧
    (∀ items, parseTemplate derivedConstant = .ok items → "now" ∉ calledNames items) ∧
    (Template.outcome 1 2 "t" derivedConstant givenConstant .newMonth .newMonth).isOk =
      true ∧
    Template.outcome 1 2 "t" derivedConstant givenConstant .newMonth .newMonth =
      Template.outcome 1 2 "t" derivedConstant (givenConstant.insert "b" .null) .newMonth
        nextMonth := by
  have hnames : ((parseTemplate derivedConstant).toOption.all fun items =>
      readNames items = ["a", "v", "c"] ∧ calledNames items = ["f"]) = true := by
    decide +kernel
  have hitems : ∀ items, parseTemplate derivedConstant = .ok items →
      readNames items = ["a", "v", "c"] ∧ calledNames items = ["f"] := by
    intro items hparse
    rw [hparse] at hnames
    simpa [Except.toOption] using hnames
  have hreads : ∀ items, parseTemplate derivedConstant = .ok items →
      ∀ x ∈ readNames items, givenConstant.get? x = (givenConstant.insert "b" .null).get? x := by
    intro items hparse x hx
    rw [(hitems items hparse).1] at hx
    exact (Table.get?_insert_of_ne givenConstant .null (by rintro rfl; simp at hx)).symm
  have hcalls : ∀ items, parseTemplate derivedConstant = .ok items →
      "now" ∉ calledNames items := by
    intro items hparse
    rw [(hitems items hparse).2]
    decide
  refine ⟨hreads, hcalls, by decide +kernel, ?_⟩
  exact (unused_noninterference 1 2 "t" derivedConstant givenConstant _ .newMonth
    .newMonth hreads).2 hcalls _ _

end MessageTemplate
