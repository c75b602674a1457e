import MessageTemplate.Proofs.Grammar.RoundTrip
import MessageTemplate.Proofs.Resolution.Program
import MessageTemplate.Render

/-!
# Every error has a position

An error of any stage stands at a token of the source, under the label of the
template. While a template is rendered it stands at the node that is to blame,
wherever in the nested calls this node is.
-/

namespace MessageTemplate

/-- A token of the source with this label stands here. -/
def IsLocationIn (file source : String) (here : Location) : Prop :=
  here.file = file ∧ IsPlaceIn (lexemes source) here.position

def Failure.location? : Failure → Option Location
  | .parse error => error.location
  | .compile error => error.location
  | .runtime error => error.location

/-! ## Trees of a source -/

section

variable {file source : String}

theorem Expr.IsFrom.marked {e : SourceExpr} (h : e.IsFrom (lexemes source)) :
    e.Marked (Resolve.inFile file (IsLocationIn file source)) :=
  fun node hnode => ⟨rfl, h.placed node hnode⟩

theorem Item.IsFrom.marked {i : SourceItem} (h : i.IsFrom (lexemes source)) :
    i.Marked (Resolve.inFile file (IsLocationIn file source)) := by
  cases h with
  | constant hplace _ hvalue => exact ⟨⟨rfl, hplace⟩, hvalue.marked⟩
  | stmt hstmt =>
    intro node hnode
    constructor
    · exact fun place hplace => ⟨rfl, (hstmt node hnode).placed place hplace⟩
    · exact fun e he => ((hstmt node hnode).exprs e he).marked

theorem isFrom_of_parse {items : SourceTemplate} (h : parse file source = .ok items) :
    ∀ i ∈ items, i.IsFrom (lexemes source) := by
  unfold parse at h
  cases hparse : parseTemplate source with
  | error error =>
    rw [hparse] at h
    contradiction
  | ok parsed =>
    rw [hparse] at h
    obtain rfl := Except.ok.inj h
    exact isFrom_of_parseTemplate hparse

end

/-! ## Compiling and rendering by stages -/

namespace Template

variable {name source : String} {constants : Table Value} {clock : Calendar.Instant}
  {allowance : Nat}

theorem compile_of_parse_error {error : ParseError} (h : parse name source = .error error) :
    compile allowance name source constants clock = .error (.failed (.parse error)) := by
  rw [compile, Session.compile, Session.parse, h]
  rfl

theorem compile_of_template {items : SourceTemplate} {code : List Code} {state : State}
    (h : parse name source = .ok items)
    (hrun : Compile.template allowance name items (.initial constants clock) = .ok code state) :
    compile allowance name source constants clock = .ok ⟨name, code, state.constants⟩ := by
  have hsession : Session.compile allowance name source (.initial constants clock) =
      .ok code state := by
    rw [Session.compile, Session.parse, h]
    exact Run.adaptExcept_of_ok hrun
  rw [compile, hsession]

theorem compile_of_template_error {items : SourceTemplate} {stop : Stop CompileError}
    {state : State}
    (h : parse name source = .ok items)
    (hrun : Compile.template allowance name items (.initial constants clock) = .error stop state) :
    compile allowance name source constants clock = .error (stop.map .compile) := by
  have hsession : Session.compile allowance name source (.initial constants clock) =
      .error (stop.map .compile) state := by
    rw [Session.compile, Session.parse, h]
    exact Run.adaptExcept_of_error hrun
  rw [compile, hsession]

/-- Items of a template have their places in its source. -/
theorem marked_of_parse {items : SourceTemplate} (h : parse name source = .ok items) :
    ∀ i ∈ items, i.Marked (Resolve.inFile name (IsLocationIn name source)) :=
  fun i hi => (isFrom_of_parse h i hi).marked

theorem location_of_parse_error {error : ParseError} (h : parse name source = .error error) :
    ∃ here, error.location = some here ∧ IsLocationIn name source here := by
  unfold parse at h
  cases hparse : parseTemplate source with
  | error fault =>
    rw [hparse] at h
    obtain rfl := Except.error.inj h
    exact ⟨_, rfl, rfl, (parseTemplate_gives source).2 fault hparse⟩
  | ok parsed =>
    rw [hparse] at h
    contradiction

theorem settled_of_parse (allowance : Nat) (constants : Table Value) (clock : Calendar.Instant)
    {items : SourceTemplate} (h : parse name source = .ok items) :
    Compile.Settled (IsLocationIn name source)
      (fun code => ∀ s ∈ code, Stmt.Marked (IsLocationIn name source) s)
      (Compile.template allowance name items (.initial constants clock)) :=
  Compile.template_settles (marked_of_parse h) _ (State.declares_initial constants clock)

/-- A template that cannot be compiled is refused at one of its tokens. -/
theorem location_of_compile_error {failure : Failure}
    (h : compile allowance name source constants clock = .error (.failed failure)) :
    ∃ here, failure.location? = some here ∧ IsLocationIn name source here := by
  cases hparse : parse name source with
  | error error =>
    rw [compile_of_parse_error hparse] at h
    obtain rfl := Stop.failed.inj (Except.error.inj h)
    exact location_of_parse_error hparse
  | ok items =>
    have hsettled := settled_of_parse allowance constants clock hparse
    cases hrun : Compile.template allowance name items (.initial constants clock) with
    | ok code state =>
      rw [compile_of_template hparse hrun] at h
      contradiction
    | error stop state =>
      rw [compile_of_template_error hparse hrun] at h
      rw [hrun] at hsettled
      cases stop with
      | exhausted => exact absurd (Except.error.inj h) (by simp [Stop.map])
      | failed error =>
        obtain rfl := Stop.failed.inj (Except.error.inj h)
        exact hsettled

/-- All places inside a compiled template are those of tokens. -/
theorem marked_of_compile {template : Template}
    (h : compile allowance name source constants clock = .ok template) :
    ∀ s ∈ template.code, Stmt.Marked (IsLocationIn name source) s := by
  cases hparse : parse name source with
  | error error =>
    rw [compile_of_parse_error hparse] at h
    contradiction
  | ok items =>
    have hsettled := settled_of_parse allowance constants clock hparse
    cases hrun : Compile.template allowance name items (.initial constants clock) with
    | ok code state =>
      rw [compile_of_template hparse hrun] at h
      rw [hrun] at hsettled
      obtain rfl := Except.ok.inj h
      exact hsettled.1
    | error stop state =>
      rw [compile_of_template_error hparse hrun] at h
      contradiction

end Template

/-- An error of compiling stands at a token of the source, under the label of the template. A
rendering fails just when it reaches a node whose own step fails: the error is one that such a node
can have, and it stands at the place of this node, which is a token of the source as well. An error
of anything that is reached, such as a call or the body of a function, is therefore the error of the
whole. -/
theorem errors_positioned (allowance : Nat) (name source : String) (constants : Table Value)
    (clock : Calendar.Instant) :
    (∀ failure, Template.compile allowance name source constants clock = .error (.failed failure) →
      ∃ here, failure.location? = some here ∧ IsLocationIn name source here) ∧
    ∀ template, Template.compile allowance name source constants clock = .ok template →
      ∀ (rounds : Nat) (now : Calendar.Instant),
        (∀ failure, template.render rounds now = .error (.failed failure) ↔
          ∃ blamed fault, failure = .runtime ⟨fault, blamed.place?⟩ ∧
            (template.rendering rounds).Blames (template.start now) blamed fault) ∧
        (∀ blamed fault, (template.rendering rounds).Blames (template.start now) blamed fault →
          blamed.Raises fault ∧ ∃ here, blamed.place? = some here ∧ IsLocationIn name source here) ∧
        ∀ (activity : Activity) (before after : State) (error : RuntimeError),
          (template.rendering rounds).Reaches (template.start now) activity before →
          activity.run before = .error (.failed error) after →
          template.render rounds now = .error (.failed (.runtime error)) := by
  constructor
  · intro failure hcompile
    exact Template.location_of_compile_error hcompile
  · intro template hcompile rounds now
    have hmarked : (template.rendering rounds).Marked (IsLocationIn name source) :=
      Template.marked_of_compile hcompile
    have hrender : ∀ failure, template.render rounds now = .error (.failed failure) ↔
        ∃ blamed fault, failure = .runtime ⟨fault, blamed.place?⟩ ∧
          (template.rendering rounds).Blames (template.start now) blamed fault := by
      intro failure
      rw [Template.render_error_iff]
      simp only [Activity.run_error_iff]
      constructor
      · rintro ⟨error, rfl, blamed, fault, rfl, hblames⟩
        exact ⟨blamed, fault, rfl, hblames⟩
      · rintro ⟨blamed, fault, rfl, hblames⟩
        exact ⟨_, rfl, blamed, fault, rfl, hblames⟩
    refine ⟨hrender, ?_, ?_⟩
    · intro blamed fault hblames
      exact ⟨hblames.raises, hblames.place hmarked (State.declares_initial _ _)⟩
    · intro activity before after error hreaches hrun
      obtain ⟨blamed, fault, rfl, start, stopped, hinner, hfails⟩ :=
        Activity.blames_of_run_error activity hrun
      rw [hrender]
      exact ⟨blamed, fault, rfl, start, stopped, hreaches.trans hinner, hfails⟩

/-- A call of a function that reads a variable which is not bound. -/
def callOfReader : String := "function f() \x7b y; \x7d f();"

/-- What a compiling or a rendering fails with. -/
def failure? {α : Type} : Except (Stop Failure) α → Option Failure
  | .error (.failed failure) => some failure
  | _ => none

theorem failure?_eq_some_iff {α : Type} {result : Except (Stop Failure) α} {failure : Failure} :
    failure? result = some failure ↔ result = .error (.failed failure) := by
  rcases result with (error | _) | value <;> simp [failure?]

theorem errors_positioned_callOfReader :
    (∃ failure here, Template.compile 1 "t" "f()" .empty .newMonth = .error (.failed failure) ∧
      failure.location? = some here ∧ IsLocationIn "t" "f()" here) ∧
    ∃ template blamed fault, Template.compile 1 "t" callOfReader .empty .newMonth =
      .ok template ∧
      (template.rendering 2).Blames (template.start .newMonth) blamed fault ∧
      template.render 2 .newMonth = .error (.failed (.runtime ⟨fault, blamed.place?⟩)) ∧
      blamed.Raises fault ∧
      ∃ here, blamed.place? = some here ∧ IsLocationIn "t" callOfReader here := by
  obtain ⟨hcompile, -⟩ := errors_positioned 1 "t" "f()" .empty .newMonth
  obtain ⟨-, hrender⟩ := errors_positioned 1 "t" callOfReader .empty .newMonth
  have hrefused : (failure? (Template.compile 1 "t" "f()" .empty .newMonth)).isSome = true := by
    decide +kernel
  have hfails : ((Template.compile 1 "t" callOfReader .empty .newMonth).toOption.any
      fun template => (failure? (template.render 2 .newMonth)).isSome) = true := by
    decide +kernel
  constructor
  · obtain ⟨failure, hfailure⟩ := Option.isSome_iff_exists.1 hrefused
    rw [failure?_eq_some_iff] at hfailure
    obtain ⟨here, hlocation, hplace⟩ := hcompile failure hfailure
    exact ⟨failure, here, hfailure, hlocation, hplace⟩
  · cases htemplate : Template.compile 1 "t" callOfReader .empty .newMonth with
    | error stop =>
      rw [htemplate] at hfails
      contradiction
    | ok template =>
      rw [htemplate] at hfails
      obtain ⟨failure, hfailure⟩ := Option.isSome_iff_exists.1 hfails
      rw [failure?_eq_some_iff] at hfailure
      obtain ⟨hiff, hblamed, hreached⟩ := hrender template htemplate 2 .newMonth
      obtain ⟨blamed, fault, rfl, hblames⟩ := (hiff failure).1 hfailure
      obtain ⟨hraises, here, hplace, hsource⟩ := hblamed blamed fault hblames
      obtain ⟨after, hrun⟩ := hblames.run_error
      exact ⟨template, blamed, fault, rfl, hblames, hreached _ _ after _ .self hrun,
        hraises, here, hplace, hsource⟩

end MessageTemplate
