import MessageTemplate.Proofs.Evaluation.Effects
import MessageTemplate.Proofs.Scope.Results

/-!
# What a run records

The statements of a function body record results in the scope of their call,
also those inside of blocks, branches and loops. What a call inside an
expression records stays in the scope of that call. `Script.Records` lists the
former in order, and the last of them is what is kept.
-/

namespace MessageTemplate

/-- The result that an effect records. -/
def Effect.recorded? : Effect → Option Value
  | record value => some value
  | _ => none

/-- Are all results recorded inside of calls? So it is if no statement is run but in a call. -/
def Activity.isApart : Activity → Bool
  | .stmt _ _ _ | .program _ _ => false
  | _ => true

/-- A script runs to its end, and these are the results that it records, in order: on its own and
in the statements that it runs, but not in calls. -/
inductive Script.Records : {α : Type} → Script α → State → List Value → Prop
  | done {α : Type} (value : α) (state : State) : Records (.done value) state []
  | look {α : Type} {next : State → Script α} {state : State} {values : List Value}
      (h : Records (next state) state values) : Records (.look next) state values
  | act {α : Type} {effect : Effect} {next : Script α} {state : State} {values : List Value}
      (h : Records next (effect.apply state) values) :
      Records (.act effect next) state (effect.recorded?.toList ++ values)
  | inside {α : Type} {allowance rounds : Nat} {s : Code} {next : Unit → Script α}
      {state mid : State} {inner values : List Value}
      (hinside : Records (.ofStmt allowance rounds s)
        ((Activity.stmt allowance rounds s).opened state) inner)
      (hrun : (Activity.stmt allowance rounds s).run state = .ok () mid)
      (h : Records (next ()) mid values) :
      Records (.start (.stmt allowance rounds s) next) state (inner ++ values)
  | apart {α : Type} {activity : Activity} {next : activity.Answer → Script α}
      {value : activity.Answer} {state mid : State} {values : List Value}
      (hapart : activity.isApart = true) (hrun : activity.run state = .ok value mid)
      (h : Records (next value) mid values) : Records (.start activity next) state values

namespace Activity

/-- The results that a run of an activity records, in order. -/
def Records (activity : Activity) (state : State) (values : List Value) : Prop :=
  activity.script.Records (activity.opened state) values

variable {activity : Activity} {state before after : State}

theorem script_of_run (activity : Activity) {value : activity.Answer}
    (h : activity.run state = .ok value after) :
    ∃ last, activity.script.run (activity.opened state) = .ok value last ∧
      after = activity.closed last := by
  rw [run_eq, surround] at h
  cases hscript : activity.script.run (activity.opened state) with
  | ok result last =>
    rw [hscript] at h
    obtain ⟨rfl, rfl⟩ := EStateM.Result.ok.inj h
    exact ⟨last, rfl, rfl⟩
  | error stop last =>
    rw [hscript] at h
    contradiction

/-! ## Every run that succeeds records a list -/

/-- The rest of a script, wherever a run has come to. -/
theorem exists_records_rest
    (hinner : ∀ inner : Activity, inner.IsUnder activity → ∀ {before after value},
      inner.run before = .ok value after → ∃ values, inner.Records before values)
    {rest : Script activity.Answer}
    (hcomes : activity.script.Comes (activity.opened state) rest before)
    {value : activity.Answer} (hrun : rest.run before = .ok value after) :
    ∃ values, rest.Records before values := by
  induction rest generalizing before with
  | done value => exact ⟨_, .done value before⟩
  | fail fault => contradiction
  | exhaust => contradiction
  | look next ih =>
    obtain ⟨values, hvalues⟩ := ih before (hcomes.trans (.look (.here _ _))) hrun
    exact ⟨values, .look hvalues⟩
  | act effect next ih =>
    obtain ⟨values, hvalues⟩ := ih (hcomes.trans (.act (.here _ _))) hrun
    exact ⟨_, .act hvalues⟩
  | start inner next ih =>
    have hunder : inner.IsUnder activity := (obeys_of_comes_true hcomes).1.1
    cases hstart : inner.run before with
    | error stop mid =>
      rw [Script.run, Run.bind_of_error hstart] at hrun
      contradiction
    | ok answer mid =>
      rw [Script.run, Run.bind_of_ok hstart] at hrun
      obtain ⟨values, hvalues⟩ := ih answer (hcomes.trans (.behind hstart (.here _ _))) hrun
      cases inner with
      | stmt allowance rounds s =>
        obtain ⟨recorded, hrecorded⟩ := hinner _ hunder hstart
        exact ⟨_, .inside hrecorded hstart hvalues⟩
      | program allowance code => cases hunder
      | _ => exact ⟨values, .apart rfl hstart hvalues⟩

theorem exists_records (activity : Activity) {value : activity.Answer}
    (h : activity.run state = .ok value after) :
    ∃ values, activity.Records state values := by
  induction activity using Activity.induct generalizing state after with
  | step activity ih =>
    obtain ⟨last, hscript, -⟩ := script_of_run activity h
    exact exists_records_rest (fun inner hunder => ih inner hunder) (.here _ _) hscript

/-! ## The last result is kept -/

theorem run_quiet (h : activity.isApart = true) : Eval.Keeps Quiet activity.run := by
  have hcompositional := Eval.isCompositional_keeps Quiet.isFrame
  have hterm := fun allowance => Eval.term_quiet (Eval.callWithin_quiet allowance)
  cases activity with
  | term allowance e => exact hterm allowance e
  | part allowance p =>
    exact hcompositional.embedPart (fun e _ => hterm allowance e) fun edit _ state =>
      state.quiet_editDocument fun document => document.editEmbed edit
  | field allowance spec => exact hcompositional.field fun e _ => hterm allowance e
  | call allowance f arguments enough => exact Eval.callWithin_quiet (allowance + 1) f arguments
  | stmt | program => contradiction

theorem opens?_stmt (allowance rounds : Nat) (s : Code) :
    (stmt allowance rounds s).opens? = none ∨
      (stmt allowance rounds s).opens? = some (.block, []) := by
  rw [opens?]
  split
  · exact .inr rfl
  · exact .inl rfl

theorem kept_opened_stmt (allowance rounds : Nat) (s : Code) (state : State) :
    ((stmt allowance rounds s).opened state).chain.kept = state.chain.kept := by
  rw [opened]
  rcases opens?_stmt allowance rounds s with hopens | hopens
  · rw [hopens]
  · rw [hopens]
    exact state.chain.kept_enter_block

/-- A block that is closed leaves what is kept as it is. -/
theorem kept_closed_stmt {allowance rounds : Nat} {s : Code} {last : State}
    (h : Local ((stmt allowance rounds s).opened state) last) :
    ((stmt allowance rounds s).closed last).chain.kept = last.chain.kept := by
  rw [opened] at h
  rw [closed]
  rcases opens?_stmt allowance rounds s with hopens | hopens
  · rw [hopens]
  · rw [hopens] at h ⊢
    apply Chain.kept_leave_block h.kind
    intro hnil
    have hsame := h.outer
    rw [hnil] at hsame
    cases hsame

end Activity

theorem Effect.kept_apply (effect : Effect) (state : State) :
    (effect.apply state).chain.kept = effect.recorded?.getD state.chain.kept := by
  cases effect with
  | assign name value => exact state.chain.kept_assign name value
  | declare f => rfl
  | record value => exact state.chain.kept_record value
  | edit change => rfl

theorem getLast?_append_getD {α : Type} (values more : List α) (value : α) :
    (values ++ more).getLast?.getD value = more.getLast?.getD (values.getLast?.getD value) := by
  rw [List.getLast?_append]
  cases more.getLast? <;> rfl

/-- What is kept in the end is the last of the results, or what was kept before if there is none. -/
theorem Script.Records.kept {α : Type} {script : Script α} {state : State} {values : List Value}
    (h : script.Records state values) : ∃ value after, script.Comes state (.done value) after ∧
      after.chain.kept = values.getLast?.getD state.chain.kept := by
  induction h with
  | done value state => exact ⟨value, state, .here _ _, rfl⟩
  | look _ ih =>
    obtain ⟨value, after, hcomes, hkept⟩ := ih
    exact ⟨value, after, .look hcomes, hkept⟩
  | @act α effect next state values _ ih =>
    obtain ⟨value, after, hcomes, hkept⟩ := ih
    refine ⟨value, after, .act hcomes, ?_⟩
    rw [hkept, effect.kept_apply, getLast?_append_getD]
    cases effect.recorded? <;> rfl
  | @inside α allowance rounds s next state mid inner values _ hrun _ ihinside ih =>
    obtain ⟨answer, last, hlast, hinner⟩ := ihinside
    obtain ⟨value, after, hcomes, hkept⟩ := ih
    refine ⟨value, after, .behind hrun hcomes, ?_⟩
    obtain ⟨stop, hscript, rfl⟩ := Activity.script_of_run _ hrun
    obtain ⟨-, rfl⟩ := EStateM.Result.ok.inj (hlast.run_eq.symm.trans hscript)
    rw [hkept, getLast?_append_getD, Activity.kept_closed_stmt hlast.local, hinner,
      Activity.kept_opened_stmt]
  | apart hapart hrun _ ih =>
    obtain ⟨value, after, hcomes, hkept⟩ := ih
    have hquiet := (Activity.run_quiet hapart).of_ok hrun
    refine ⟨value, after, .behind hrun hcomes, ?_⟩
    rw [hkept, Chain.kept_of_same hquiet.scopes.kinds hquiet.results]

end MessageTemplate
