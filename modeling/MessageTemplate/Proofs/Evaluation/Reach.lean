import MessageTemplate.Proofs.Evaluation.Activity
import MessageTemplate.Render

/-!
# The states that a run passes

An activity comes from one step of its script to the next as long as what it
waits for succeeds, and it reaches the activities that it starts, and those that
they start in turn. The states between the steps are the states that a run
passes.
-/

namespace MessageTemplate

/-- A script that begins in a state comes to the rest of the script in another state. -/
inductive Script.Comes {α : Type} : Script α → State → Script α → State → Prop
  | here (script : Script α) (state : State) : Comes script state script state
  | look {next : State → Script α} {state after : State} {rest : Script α}
      (h : Comes (next state) state rest after) : Comes (.look next) state rest after
  | act {effect : Effect} {next : Script α} {state after : State} {rest : Script α}
      (h : Comes next (effect.apply state) rest after) : Comes (.act effect next) state rest after
  | behind {activity : Activity} {next : activity.Answer → Script α} {value : activity.Answer}
      {state mid after : State} {rest : Script α} (hrun : activity.run state = .ok value mid)
      (h : Comes (next value) mid rest after) : Comes (.start activity next) state rest after

namespace Activity

/-- While the first activity runs from a state, the second one is started in another. -/
inductive Reaches (outer : Activity) (state : State) : Activity → State → Prop
  | self : Reaches outer state outer state
  | inside {middle inner : Activity} {before after : State}
      {next : inner.Answer → Script middle.Answer} (h : Reaches outer state middle before)
      (hcomes : middle.script.Comes (middle.opened before) (.start inner next) after) :
      Reaches outer state inner after

/-- The states that a run passes: while a scope is opened for it or for an activity that it
reaches, from step to step, and when such an activity is over, however it ends. -/
inductive Passes (outer : Activity) (state : State) : State → Prop
  | opening {activity : Activity} {before : State} {kind : ScopeKind}
      {values : List Value} (h : Reaches outer state activity before)
      (hopens : activity.opens? = some (kind, values)) (count : Nat) :
      Passes outer state (Eval.bound (kind.parameters.take count) values
        (before.editChain fun chain => chain.enter kind))
  | step {activity : Activity} {before after : State} {rest : Script activity.Answer}
      (h : Reaches outer state activity before)
      (hcomes : activity.script.Comes (activity.opened before) rest after) :
      Passes outer state after
  | finished {activity : Activity} {before : State}
      (h : Reaches outer state activity before) :
      Passes outer state (Eval.after activity.run before)

/-- A run does an effect, on its own or in an activity that it reaches. -/
def Does (outer : Activity) (state : State) (effect : Effect) (before : State) : Prop :=
  ∃ (activity : Activity) (start : State) (next : Script activity.Answer),
    outer.Reaches state activity start ∧
      activity.script.Comes (activity.opened start) (.act effect next) before

theorem Reaches.trans {outer middle inner : Activity} {first second third : State}
    (h : outer.Reaches first middle second)
    (hinner : middle.Reaches second inner third) : outer.Reaches first inner third := by
  induction hinner with
  | self => exact h
  | inside _ hcomes ih => exact .inside ih hcomes

end Activity

/-! ## All that happens is local -/

theorem Effect.local_apply (effect : Effect) (state : State) :
    Local state (effect.apply state) := by
  cases effect with
  | assign name value => exact state.local_assign name value
  | declare function => exact state.local_declare function
  | record value => exact (state.confined_record value).local
  | edit change => exact (state.quiet_editDocument change).local

theorem Activity.run_local (activity : Activity) : Eval.Keeps Local activity.run := by
  have hacts := Eval.allowsActs_local
  cases activity with
  | term allowance e => exact Eval.term_local (Eval.callWithin_quiet allowance) e
  | stmt allowance rounds s => exact Eval.stmt_local (Eval.callWithin_quiet allowance) rounds s
  | part allowance p =>
    have hterm := Eval.term_local (Eval.callWithin_quiet allowance)
    exact hacts.embedPart (fun e _ => hterm e) fun _ _ => hacts.edit _
  | field allowance spec =>
    exact hacts.field fun e _ => Eval.term_local (Eval.callWithin_quiet allowance) e
  | call allowance f values enough =>
    exact (Eval.callWithin_quiet (allowance + 1) f values).mono fun _ _ => Quiet.local
  | program allowance code =>
    exact hacts.stmts fun s _ => Eval.stmt_local (Eval.callWithin_quiet allowance) allowance s

/-- From one step of a script to another everything is local to the current scope. -/
theorem Script.Comes.local {α : Type} {script rest : Script α} {state after : State}
    (h : script.Comes state rest after) : Local state after := by
  induction h with
  | here script state => exact Local.isFrame.refl state
  | look _ ih => exact ih
  | act _ ih => exact Local.isFrame.trans (Effect.local_apply _ _) ih
  | behind hrun _ ih =>
    exact Local.isFrame.trans ((Activity.run_local _).of_ok hrun) ih

/-! ## Renderings -/

namespace Template

/-- What is done to render a template. -/
def rendering (template : Template) (allowance : Nat) : Activity := .program allowance template.code

/-- The state in which a rendering begins. -/
def start (template : Template) (clock : Calendar.Instant) : State :=
  .initial template.constants clock

/-- A rendering fails as what is done for it. -/
theorem render_error_iff (template : Template) (allowance : Nat) (clock : Calendar.Instant)
    (failure : Failure) : template.render allowance clock = .error (.failed failure) ↔
      ∃ error, failure = .runtime error ∧
        ∃ after, (template.rendering allowance).run (template.start clock) =
          .error (.failed error) after := by
  change _ ↔ ∃ error, failure = .runtime error ∧
    ∃ after, Eval.program allowance template.code (template.start clock) =
      .error (.failed error) after
  unfold render
  cases hrun : Eval.program allowance template.code (template.start clock) with
  | ok value after =>
    have hsession : Session.run allowance template.code (template.start clock) = .ok value after :=
      Run.adaptExcept_of_ok hrun
    rw [← start, hsession]
    simp
  | error stop after =>
    have hsession : Session.run allowance template.code (template.start clock) =
        .error (stop.map .runtime) after := Run.adaptExcept_of_error hrun
    rw [← start, hsession]
    cases stop <;> simp [Stop.map, eq_comm]

end Template
end MessageTemplate
