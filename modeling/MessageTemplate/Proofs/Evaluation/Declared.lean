import MessageTemplate.Proofs.Evaluation.Rules

/-!
# The functions that a run finds

The functions that the scopes declare come from code that ran. A condition that
activities hand on holds of all that a run reaches, and an invariant of its
steps holds of all states that it passes. In particular, if all places in the
code satisfy a condition, so do the places in all that a run reaches.
-/

namespace MessageTemplate

variable {p : Location → Prop}

namespace State

/-- The functions that the scopes hold satisfy a condition together with the names they stand
under. -/
def Holds (p : String → Function → Prop) (state : State) : Prop :=
  ∀ scope ∈ state.chain.scopes, ∀ name f, scope.functions.get? name = some f → p name f

namespace Holds

variable {p : String → Function → Prop} {state : State}

/-- The condition depends on the functions of the scopes alone. -/
theorem of_functions (h : state.Holds p) {after : State}
    (heq : after.chain.scopes.map Scope.functions = state.chain.scopes.map Scope.functions) :
    after.Holds p := by
  intro scope hscope name f hf
  have hmem := List.mem_map_of_mem (f := Scope.functions) hscope
  rw [heq, List.mem_map] at hmem
  obtain ⟨old, hold, hfunctions⟩ := hmem
  rw [← hfunctions] at hf
  exact h old hold name f hf

theorem of_same (h : state.Holds p) {after : State}
    (hsame : SameScopes state.chain.scopes after.chain.scopes) : after.Holds p :=
  h.of_functions hsame.functions

theorem initial (constants : Table Value) (clock : Calendar.Instant) :
    (State.initial constants clock).Holds p := by
  intro scope hscope name f hf
  rw [List.mem_singleton.1 hscope] at hf
  contradiction

/-- A function is declared under its own name. -/
theorem apply (h : state.Holds p) {effect : Effect}
    (heffect : effect.Declares fun f => p f.name f) : (effect.apply state).Holds p := by
  cases effect with
  | assign name value =>
    apply h.of_functions
    rw [Effect.apply, editChain]
    rcases state.chain.assign_cases name value with ⟨outer, hassign, hsame, -⟩ | ⟨hassign, -⟩
    · rw [hassign, Chain.scopes, List.map_cons, hsame.functions]
      rfl
    · rw [hassign]
      rfl
  | declare f =>
    intro scope hscope name g hg
    rcases List.mem_cons.1 hscope with rfl | houter
    · have hget := Table.get?_insert state.chain.current.functions f.name f name
      rw [show ((state.chain.current.functions.insert f.name f).get? name) = some g from hg] at hget
      split at hget
      · rename_i hname
        rw [Option.some.inj hget, hname]
        exact heffect
      · exact h _ List.mem_cons_self name g hget.symm
    · exact h scope (List.mem_cons_of_mem _ houter) name g hg
  | record value => exact h.of_same (state.chain.scopes_record value)
  | edit change => exact h

theorem enter (h : state.Holds p) (kind : ScopeKind) :
    (state.editChain fun chain => chain.enter kind).Holds p := by
  intro scope hscope name f hf
  rcases List.mem_cons.1 hscope with rfl | houter
  · contradiction
  · exact h scope houter name f hf

theorem leave (h : state.Holds p) : (state.editChain .leave).Holds p := by
  intro scope hscope name f hf
  apply h scope _ name f hf
  rw [editChain, Chain.leave] at hscope
  cases houter : state.chain.outer with
  | nil => simpa [houter] using hscope
  | cons next outer =>
    rw [houter] at hscope
    rw [Chain.scopes, houter]
    exact List.mem_cons_of_mem _ hscope

theorem bound (h : state.Holds p) (names : List String) (values : List Value) :
    (Eval.bound names values state).Holds p := by
  induction names generalizing values state with
  | nil => cases values <;> exact h
  | cons name names ih =>
    cases values with
    | nil => exact h
    | cons value values =>
      apply ih
      exact h.of_functions rfl

end Holds

variable {q : Function → Prop} {state : State}

theorem declares_initial (constants : Table Value) (clock : Calendar.Instant) :
    (State.initial constants clock).Declares q := Holds.initial constants clock

theorem Declares.of_functions (h : state.Declares q) {after : State}
    (heq : after.chain.scopes.map Scope.functions = state.chain.scopes.map Scope.functions) :
    after.Declares q := Holds.of_functions h heq

theorem Declares.apply (h : state.Declares q) {effect : Effect} (heffect : effect.Declares q) :
    (effect.apply state).Declares q := Holds.apply h heffect

theorem Declares.enter (h : state.Declares q) (kind : ScopeKind) :
    (state.editChain fun chain => chain.enter kind).Declares q := Holds.enter h kind

theorem Declares.leave (h : state.Declares q) : (state.editChain .leave).Declares q := Holds.leave h

/-- A condition on states that all steps of a run keep, as long as what is declared satisfies a
condition on functions. -/
structure IsInvariant (r : Function → Prop) (I : State → Prop) : Prop where
  declares : ∀ {state}, I state → state.Declares r
  apply : ∀ {state} {effect : Effect}, I state → effect.Declares r → I (effect.apply state)
  enter : ∀ {state}, I state → ∀ kind, I (state.editChain fun chain => chain.enter kind)
  bound : ∀ {state}, I state → ∀ names values, I (Eval.bound names values state)
  leave : ∀ {state}, I state → I (state.editChain .leave)

theorem isInvariant_declares : IsInvariant q (Declares q) where
  declares := id
  apply := fun h heffect => h.apply heffect
  enter := Declares.enter
  bound := Holds.bound
  leave := Declares.leave

end State

namespace Activity

theorem after_run (activity : Activity) (state : State) :
    Eval.after activity.run state =
      activity.closed (Eval.after activity.script.run (activity.opened state)) := by
  rw [run_eq, Eval.after, Eval.after, surround]
  cases activity.script.run (activity.opened state) <;> rfl

end Activity

/-- A run that starts with the invariant ends with it, however it ends. -/
def Maintains {α : Type} (I : State → Prop) (run : Eval α) : Prop :=
  ∀ state : State, I state → I (Eval.after run state)

/-- A run declares only functions that satisfy a condition, if it finds only such. -/
def KeepsDeclared {α : Type} (q : Function → Prop) (run : Eval α) : Prop :=
  Maintains (State.Declares q) run

namespace State.IsInvariant

variable {r : Function → Prop} {I : State → Prop} (hI : IsInvariant r I) {state : State}

include hI

theorem opened (activity : Activity) (h : I state) : I (activity.opened state) := by
  unfold Activity.opened
  cases activity.opens? with
  | none => exact h
  | some scope => exact hI.bound (hI.enter h scope.1) _ _

theorem closed (activity : Activity) (h : I state) : I (activity.closed state) := by
  rw [Activity.closed]
  cases activity.opens? with
  | none => exact h
  | some scope => exact hI.leave h

end State.IsInvariant

namespace Script.Obeys

variable {α : Type} {rules : Rules} {script : Script α} {I : State → Prop}

theorem maintains (h : script.Obeys rules) (hI : State.IsInvariant rules.function I)
    (hstarts : ∀ activity, rules.starts activity → Maintains I activity.run) :
    Maintains I script.run := by
  induction script with
  | done value => exact fun state hstate => hstate
  | fail fault => exact fun state hstate => hstate
  | exhaust => exact fun state hstate => hstate
  | look next ih =>
    exact fun state hstate => ih state (h state (hI.declares hstate)) state hstate
  | act effect next ih => exact fun state hstate => ih h.2 _ (hI.apply hstate h.1)
  | start activity next ih =>
    intro state hstate
    have hmid := hstarts activity h.1 state hstate
    cases hrun : activity.run state with
    | ok value mid =>
      rw [Eval.after, hrun] at hmid
      rw [Script.run, Eval.after_bind_of_ok hrun]
      exact ih value (h.2 value) mid hmid
    | error stop mid =>
      rw [Eval.after, hrun] at hmid
      rw [Script.run, Eval.after, Run.bind_of_error hrun]
      exact hmid

theorem of_comes (h : script.Obeys rules) (hI : State.IsInvariant rules.function I)
    (hstarts : ∀ activity, rules.starts activity → Maintains I activity.run) {rest : Script α}
    {state after : State} (hcomes : script.Comes state rest after) (hstate : I state) :
    rest.Obeys rules ∧ I after := by
  induction hcomes with
  | here script state => exact ⟨h, hstate⟩
  | look _ ih => exact ih (h _ (hI.declares hstate)) hstate
  | act _ ih => exact ih h.2 (hI.apply hstate h.1)
  | behind hrun _ ih =>
    have hmid := hstarts _ h.1 _ hstate
    rw [Eval.after, hrun] at hmid
    exact ih (h.2 _) hmid

end Script.Obeys

namespace Activity

namespace HandsOn

variable {q : Activity → Prop} {r : Function → Prop} {I : State → Prop} (h : HandsOn q r)
  (hI : State.IsInvariant r I)

include h hI

theorem run_maintains {activity : Activity} (hq : q activity) : Maintains I activity.run := by
  induction activity using Activity.induct with
  | step activity ih =>
    intro state hstate
    have hscript : Maintains I activity.script.run :=
      (h.script_obeys hq).maintains hI fun inner hinner => ih inner hinner.1 hinner.2
    rw [after_run]
    exact hI.closed activity (hscript _ (hI.opened activity hstate))

/-- The script of an activity obeys the rules at all its steps. -/
theorem obeys_of_comes {activity : Activity} (hq : q activity) {state after : State}
    (hstate : I state) {rest : Script activity.Answer}
    (hcomes : activity.script.Comes (activity.opened state) rest after) :
    rest.Obeys (activity.rulesOf q r) ∧ I after :=
  (h.script_obeys hq).of_comes hI (fun _ hinner => h.run_maintains hI hinner.2) hcomes
    (hI.opened activity hstate)

theorem reaches {outer activity : Activity} {state before : State}
    (hreaches : outer.Reaches state activity before) (houter : q outer) (hstate : I state) :
    q activity ∧ I before := by
  induction hreaches with
  | self => exact ⟨houter, hstate⟩
  | inside _ hcomes ih =>
    obtain ⟨hobeys, hafter⟩ := h.obeys_of_comes hI ih.1 ih.2 hcomes
    exact ⟨hobeys.1.2, hafter⟩

/-- All states that a run passes have the invariant. -/
theorem passes {outer : Activity} {state after : State} (hpasses : outer.Passes state after)
    (houter : q outer) (hstate : I state) : I after := by
  cases hpasses with
  | opening hreaches _ count =>
    have hbefore := (h.reaches hI hreaches houter hstate).2
    exact hI.bound (hI.enter hbefore _) _ _
  | step hreaches hcomes =>
    obtain ⟨hq, hbefore⟩ := h.reaches hI hreaches houter hstate
    exact (h.obeys_of_comes hI hq hbefore hcomes).2
  | finished hreaches =>
    obtain ⟨hq, hbefore⟩ := h.reaches hI hreaches houter hstate
    exact h.run_maintains hI hq _ hbefore

end HandsOn

theorem handsOn_true : HandsOn (fun _ => True) fun _ => True :=
  ⟨fun _ _ _ => trivial, fun _ _ _ _ => trivial, fun _ _ _ _ => trivial, fun _ _ => trivial⟩

/-- No step of a run touches the constants. -/
theorem Passes.constants {outer : Activity} {state after : State} (h : outer.Passes state after) :
    after.constants = state.constants := by
  have hinvariant : State.IsInvariant (fun _ => True) fun mid => mid.constants = state.constants :=
    { declares := fun _ _ _ _ _ _ => trivial
      apply := by
        intro mid effect hmid _
        cases effect <;> exact hmid
      enter := fun hmid _ => hmid
      bound := fun hmid names values => (Eval.bound_same names values _).1.trans hmid
      leave := fun hmid => hmid }
  exact handsOn_true.passes hinvariant h trivial rfl

theorem run_keepsDeclared {activity : Activity} (h : activity.Marked p) :
    KeepsDeclared (Function.Marked p) activity.run :=
  handsOn_marked.run_maintains State.isInvariant_declares h

theorem obeys_of_comes {activity : Activity} (h : activity.Marked p) {state after : State}
    (hstate : state.Declares (Function.Marked p)) {rest : Script activity.Answer}
    (hcomes : activity.script.Comes (activity.opened state) rest after) :
    rest.Obeys (activity.rules p) ∧ after.Declares (Function.Marked p) :=
  handsOn_marked.obeys_of_comes State.isInvariant_declares h hstate hcomes

/-- All places inside what is reached satisfy the condition as well. -/
theorem Reaches.marked {outer activity : Activity} {state before : State}
    (h : outer.Reaches state activity before) (houter : outer.Marked p)
    (hstate : state.Declares (Function.Marked p)) :
    activity.Marked p ∧ before.Declares (Function.Marked p) :=
  handsOn_marked.reaches State.isInvariant_declares h houter hstate

end Activity
end MessageTemplate
