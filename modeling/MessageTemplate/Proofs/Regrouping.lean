import MessageTemplate.Proofs.Compiling
import MessageTemplate.Proofs.Evaluation.Regrouping

/-!
# Grouping has no meaning

Statements can be regrouped without a change of what a template does. It has the
same faults in the same order, so it is refused for the same reason or compiled
to regrouped code, and this makes the same document or fails in the same way.
-/

namespace MessageTemplate

/-! ## Faults -/

theorem Stmt.Regroups.faults {file : String} {body other : List SourceStmt}
    (h : Stmt.Regroups body other) :
    body.flatMap (Stmt.faults file) = other.flatMap (Stmt.faults file) := by
  induction h with
  | refl body => rfl
  | trans _ _ ih ihthen => exact ih.trans ihthen
  | append _ _ ih ihbehind => rw [List.flatMap_append, List.flatMap_append, ih, ihbehind]
  | inline here body => rw [List.flatMap_singleton, Stmt.faults, faultsOfAll_eq]
  | drop here => rfl
  | split here parts =>
    rw [List.flatMap_singleton, List.flatMap_map, Stmt.faults]
    exact List.flatMap_congr fun part _ => by rw [Stmt.faults, List.flatMap_singleton]
  | block here _ ih => simpa [Stmt.faults, faultsOfAll_eq] using ih
  | function here name namePlace parameters _ ih => simpa [Stmt.faults] using ih
  | branch here test _ _ ihyes ihno => simp_all [Stmt.faults, faultsOf?_eq]
  | forLoop here check _ _ _ ihinit ihstep ihbody => simp_all [Stmt.faults, faultsOf?_eq]
  | foreach here name iterable _ ih => simpa [Stmt.faults] using ih
  | whileLoop here test _ ih => simpa [Stmt.faults] using ih
  | doWhile here test _ ih => simpa [Stmt.faults] using ih

/-! ## Compiling -/

namespace Compile

/-- Compiling ends in the same state, with regrouped code or for the same reason. -/
inductive Regroups : EStateM.Result (Stop CompileError) State (List Code) →
    EStateM.Result (Stop CompileError) State (List Code) → Prop
  | ok {code other : List Code} (h : Stmt.Regroups code other) (state : State) :
      Regroups (.ok code state) (.ok other state)
  | error (stop : Stop CompileError) (state : State) :
      Regroups (.error stop state) (.error stop state)

variable {allowance : Nat} {file : String} {state : State}

theorem Regroups.refl (result : EStateM.Result (Stop CompileError) State (List Code)) :
    Regroups result result := by
  cases result with
  | ok code state => exact .ok (.refl code) state
  | error stop state => exact .error stop state

theorem Regroups.append {front back others more : SourceTemplate}
    (hfront : Regroups (template allowance file front state) (template allowance file others state))
    (hback : ∀ state, Regroups (template allowance file back state)
      (template allowance file more state)) :
    Regroups (template allowance file (front ++ back) state)
      (template allowance file (others ++ more) state) := by
  rw [template_append, template_append]
  generalize hfirst : template allowance file front state = firstEnd at hfront
  generalize hsecond : template allowance file others state = secondEnd at hfront
  cases hfront with
  | error stop mid =>
    rw [Run.bind_of_error hfirst, Run.bind_of_error hsecond]
    exact .error stop mid
  | ok hcode mid =>
    rw [Run.bind_of_ok hfirst, Run.bind_of_ok hsecond]
    have hrest := hback mid
    generalize hfirst : template allowance file back mid = firstEnd at hrest
    generalize hsecond : template allowance file more mid = secondEnd at hrest
    cases hrest with
    | error stop after =>
      rw [Run.bind_of_error hfirst, Run.bind_of_error hsecond]
      exact .error stop after
    | ok hmore after =>
      rw [Run.bind_of_ok hfirst, Run.bind_of_ok hsecond]
      exact .ok (hcode.append hmore) after

theorem stmts_regroups {body other : List SourceStmt} (h : Stmt.Regroups body other) :
    Regroups (template allowance file (body.map .stmt) state)
      (template allowance file (other.map .stmt) state) := by
  rw [template_stmts, template_stmts, h.faults]
  cases other.flatMap (Stmt.faults file) with
  | nil => exact .ok (h.map _ _) state
  | cons error more => exact .error (.failed error) state

/-- Regrouped templates are compiled to regrouped code or refused for the same reason. -/
theorem template_regroups {items others : SourceTemplate} (h : Item.Regroups items others)
    (allowance : Nat) (file : String) (state : State) :
    Regroups (template allowance file items state) (template allowance file others state) := by
  induction h generalizing state with
  | nil => exact .refl _
  | constant here name value _ ih =>
    have hfirst : Regroups (template allowance file [.constant here name value] state)
        (template allowance file [.constant here name value] state) := .refl _
    exact hfirst.append ih
  | stmts h _ ih => exact (stmts_regroups h).append ih

end Compile

/-! ## Rendering -/

namespace Template

variable {name source : String} {constants : Table Value} {compiled rendered : Calendar.Instant}

theorem render_regroups {code other : List Code} (h : Stmt.Regroups code other) (name : String)
    (constants : Table Value) (rounds : Nat) (clock : Calendar.Instant) :
    render rounds ⟨name, code, constants⟩ clock = render rounds ⟨name, other, constants⟩ clock := by
  have hsimilar : Run.Similar (State.Matches Function.Regroups) (Session.run rounds code)
      (Session.run rounds other) :=
    Run.Similar.adaptExcept (Stop.map Failure.runtime) (Eval.program_similar rounds h)
  have hends := hsimilar _ _ (.refl .refl (.initial constants clock))
  rw [render, render]
  generalize Session.run rounds code (.initial constants clock) = firstEnd at hends
  generalize Session.run rounds other (.initial constants clock) = secondEnd at hends
  cases hends with
  | ok value hmatches => exact congrArg Except.ok hmatches.document
  | error stop hmatches => rfl

/-- Compile a tree. -/
def ofTree (allowance : Nat) (name : String) (items : SourceTemplate) (constants : Table Value)
    (clock : Calendar.Instant) : Except (Stop Failure) Template :=
  match Compile.template allowance name items (.initial constants clock) with
  | .ok code state => .ok ⟨name, code, state.constants⟩
  | .error stop _ => .error (stop.map .compile)

theorem compile_eq_ofTree {items : SourceTemplate} (h : parse name source = .ok items)
    (allowance : Nat) (constants : Table Value) (clock : Calendar.Instant) :
    compile allowance name source constants clock =
      ofTree allowance name items constants clock := by
  rw [ofTree]
  cases hrun : Compile.template allowance name items (.initial constants clock) with
  | ok code state => exact compile_of_template h hrun
  | error stop state => exact compile_of_template_error h hrun

/-- The document of a tree, compiled at one time and rendered at another, or why there is none. -/
def treeOutcome (allowance rounds : Nat) (name : String) (items : SourceTemplate)
    (constants : Table Value) (compiled rendered : Calendar.Instant) :
    Except (Stop Failure) Document := do
  let template ← ofTree allowance name items constants compiled
  render rounds template rendered

theorem outcome_eq_treeOutcome {items : SourceTemplate} (h : parse name source = .ok items)
    (allowance rounds : Nat) (constants : Table Value) (compiled rendered : Calendar.Instant) :
    outcome allowance rounds name source constants compiled rendered =
      treeOutcome allowance rounds name items constants compiled rendered := by
  rw [outcome, treeOutcome, compile_eq_ofTree h]

end Template

/-- Regrouping the statements of a template changes nothing, whatever the constants and the times
at which it is compiled and rendered: there is the same document, the same failure at the same
place, or none within any allowance. This holds of the tree of a text as well. -/
theorem regrouping_keeps_outcome (allowance rounds : Nat) (name : String)
    (items others : SourceTemplate) (constants : Table Value)
    (compiled rendered : Calendar.Instant) (h : Item.Regroups items others) :
    Template.treeOutcome allowance rounds name items constants compiled rendered =
        Template.treeOutcome allowance rounds name others constants compiled rendered ∧
      ∀ source, parse name source = .ok items →
        Template.outcome allowance rounds name source constants compiled rendered =
          Template.treeOutcome allowance rounds name others constants compiled rendered := by
  have hcompiled := Compile.template_regroups h allowance name (.initial constants compiled)
  have htree : Template.treeOutcome allowance rounds name items constants compiled rendered =
      Template.treeOutcome allowance rounds name others constants compiled rendered := by
    rw [Template.treeOutcome, Template.treeOutcome, Template.ofTree, Template.ofTree]
    generalize Compile.template allowance name items (.initial constants compiled) = firstEnd
      at hcompiled
    generalize Compile.template allowance name others (.initial constants compiled) = secondEnd
      at hcompiled
    cases hcompiled with
    | error stop state => rfl
    | ok hcode state => exact Template.render_regroups hcode name state.constants rounds rendered
  refine ⟨htree, fun source hparse => ?_⟩
  rw [Template.outcome_eq_treeOutcome hparse, htree]

def numericTitle : EmbedPart SourceExpr Position :=
  ⟨⟨1, 27⟩, .member .title (.literal ⟨1, 35⟩ (.number "1"))⟩

def numericColor : EmbedPart SourceExpr Position :=
  ⟨⟨1, 38⟩, .member .color (.literal ⟨1, 46⟩ (.number "7"))⟩

/-- A function and a call of it. -/
def functionOf (body : List SourceStmt) : List SourceStmt :=
  [.function ⟨1, 0⟩ "f" ⟨1, 9⟩ [] (.block ⟨1, 13⟩ body), .expr ⟨1, 55⟩ (.call ⟨1, 55⟩ "f" [])]

/-- In the function there is a block with an empty statement and an embed of two parts. -/
def groupedText : String :=
  "function f() \x7b \x7b ; embed \x7b title = 1; color = 7; \x7d \x7d \x7d f();"

def groupedBody : List SourceStmt :=
  [.block ⟨1, 15⟩ [.empty ⟨1, 17⟩, .embed ⟨1, 19⟩ [numericTitle, numericColor]]]

/-- One statement for each part of the embed and nothing else. -/
def ungroupedBody : List SourceStmt :=
  [.embed ⟨1, 19⟩ [numericTitle], .embed ⟨1, 19⟩ [numericColor]]

theorem regrouping_keeps_outcome_functionBody :
    Item.Regroups ((functionOf groupedBody).map .stmt) ((functionOf ungroupedBody).map .stmt) ∧
      parse "t" groupedText = .ok ((functionOf groupedBody).map .stmt) ∧
      Template.outcome 1 2 "t" groupedText .empty .newMonth .newMonth =
        Template.treeOutcome 1 2 "t" ((functionOf ungroupedBody).map .stmt) .empty .newMonth
          .newMonth ∧
      ∃ document,
        Template.outcome 1 2 "t" groupedText .empty .newMonth .newMonth = .ok document ∧
          document.embeds.length = 1 := by
  have hinline : Stmt.Regroups groupedBody
      ([.empty ⟨1, 17⟩] ++ [.embed ⟨1, 19⟩ [numericTitle, numericColor]]) :=
    .inline _ _
  have hbody : Stmt.Regroups groupedBody ungroupedBody :=
    hinline.trans (.append (.drop _) (.split _ [numericTitle, numericColor]))
  have hregroups : Item.Regroups ((functionOf groupedBody).map .stmt)
      ((functionOf ungroupedBody).map .stmt) :=
    .of_stmts (.append (.function _ "f" _ [] (.block _ hbody)) (.refl [_]))
  have hparse : parse "t" groupedText = .ok ((functionOf groupedBody).map .stmt) := by
    with_unfolding_all rfl
  have hrenders : ((Template.outcome 1 2 "t" groupedText .empty .newMonth
      .newMonth).toOption.any fun document => document.embeds.length = 1) = true := by
    decide +kernel
  obtain ⟨-, hsource⟩ :=
    regrouping_keeps_outcome 1 2 "t" _ _ .empty .newMonth .newMonth hregroups
  refine ⟨hregroups, hparse, hsource groupedText hparse, ?_⟩
  cases houtcome : Template.outcome 1 2 "t" groupedText .empty .newMonth .newMonth with
  | error stop =>
    rw [houtcome] at hrenders
    contradiction
  | ok document =>
    rw [houtcome] at hrenders
    exact ⟨document, rfl, of_decide_eq_true hrenders⟩

end MessageTemplate
