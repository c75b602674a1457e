import MessageTemplate.Proofs.Evaluation.Reach
import MessageTemplate.Proofs.Scope.Shadowing

/-!
# Only parameters hide names

The chain of a run never binds a name twice but for the parameters of calls. A
run starts without names, whatever it does is local to its current scope, and a
scope is opened with nothing but parameters in it.
-/

namespace MessageTemplate

/-! ## Local changes -/

section

variable {before after : State}

/-- A local change binds no name here that is bound further out. -/
theorem Local.shadows (h : Local before after) (hbefore : before.chain.ShadowsParametersOnly) :
    after.chain.ShadowsParametersOnly := by
  rw [Chain.ShadowsParametersOnly, Chain.scopes, List.pairwise_cons] at hbefore ⊢
  constructor
  · intro outer houter name hinner hbinds
    rw [h.kind]
    by_cases hold : before.chain.current.binds name = true
    · obtain ⟨older, hmem, hsame⟩ := h.outer.exists_same houter
      rw [hsame.names] at hbinds
      exact hbefore.1 older hmem name hold hbinds
    · have hfree := h.outer.forall_binds (h.fresh name hinner (by simpa using hold)) outer houter
      rw [hfree] at hbinds
      contradiction
  · exact h.outer.shadows hbefore.2

theorem Local.bindsParameters (h : Local before after) (hbefore : before.chain.BindsParameters) :
    after.chain.BindsParameters := by
  rw [Chain.BindsParameters, Chain.scopes, List.forall_mem_cons] at hbefore ⊢
  constructor
  · intro name hname
    rw [h.kind] at hname
    exact h.names name (hbefore.1 name hname)
  · intro outer houter name hname
    obtain ⟨older, hmem, hsame⟩ := h.outer.exists_same houter
    rw [hsame.kind] at hname
    rw [hsame.names]
    exact hbefore.2 older hmem name hname

end

/-! ## Binding arguments -/

namespace Eval

variable {state : State}

theorem bound_shadows {names : List String} (values : List Value)
    (hstate : state.chain.ShadowsParametersOnly)
    (hnames : ∀ name ∈ names, name ∈ state.chain.current.kind.parameters) :
    (bound names values state).chain.ShadowsParametersOnly := by
  induction names generalizing values state with
  | nil => cases values <;> exact hstate
  | cons name names ih =>
    rw [List.forall_mem_cons] at hnames
    cases values with
    | nil => exact hstate
    | cons value values => exact ih values (hstate.bind hnames.1 value) hnames.2

theorem binds_bound {name : String} (names : List String) (values : List Value)
    (hstate : state.chain.current.binds name = true) :
    (bound names values state).chain.current.binds name = true := by
  induction names generalizing values state with
  | nil => cases values <;> exact hstate
  | cons first names ih =>
    cases values with
    | nil => exact hstate
    | cons value values =>
      apply ih
      have hbound := state.chain.current.binds_bind first value name
      rw [hstate, Bool.or_true] at hbound
      exact hbound

theorem bound_binds {names : List String} {values : List Value}
    (hlength : names.length ≤ values.length) :
    ∀ name ∈ names, (bound names values state).chain.current.binds name = true := by
  induction names generalizing values state with
  | nil => simp
  | cons first names ih =>
    cases values with
    | nil => simp at hlength
    | cons value values =>
      rw [List.forall_mem_cons]
      constructor
      · have hbound := state.chain.current.binds_bind first value first
        rw [decide_eq_true rfl, Bool.true_or] at hbound
        exact binds_bound names values hbound
      · exact ih (by simpa using hlength)

end Eval

/-! ## All states of a run -/

/-- Names are hidden by parameters only, and the parameters of all calls are bound. -/
structure State.IsTidy (state : State) : Prop where
  shadows : state.chain.ShadowsParametersOnly
  bindsParameters : state.chain.BindsParameters

theorem Local.isTidy {before after : State} (h : Local before after) (hbefore : before.IsTidy) :
    after.IsTidy :=
  ⟨h.shadows hbefore.shadows, h.bindsParameters hbefore.bindsParameters⟩

theorem State.isTidy_initial (constants : Table Value) (clock : Calendar.Instant) :
    (State.initial constants clock).IsTidy := by
  constructor
  · exact List.pairwise_singleton _ _
  · intro scope hscope name hname
    rw [List.mem_singleton.1 hscope] at hname
    contradiction

namespace Activity

/-- A scope is opened with a value for each of its parameters. -/
theorem length_of_opens? {activity : Activity} {kind : ScopeKind} {values : List Value}
    (h : activity.opens? = some (kind, values)) : kind.parameters.length ≤ values.length := by
  cases activity with
  | stmt allowance rounds s =>
    rw [opens?] at h
    split at h
    · obtain ⟨rfl, rfl⟩ := Prod.mk.inj (Option.some.inj h)
      exact Nat.zero_le _
    · contradiction
  | call allowance f arguments enough =>
    obtain ⟨rfl, rfl⟩ := Prod.mk.inj (Option.some.inj h)
    exact enough
  | _ => contradiction

/-- While a scope is opened, names are hidden by parameters only. -/
theorem opening_shadows {state : State} (h : state.chain.ShadowsParametersOnly) (kind : ScopeKind)
    (values : List Value) {names : List String} (hnames : ∀ name ∈ names, name ∈ kind.parameters) :
    (Eval.bound names values
      (state.editChain fun chain => chain.enter kind)).chain.ShadowsParametersOnly :=
  Eval.bound_shadows values (h.enter kind) hnames

theorem isTidy_opened (activity : Activity) {state : State} (h : state.IsTidy) :
    (activity.opened state).IsTidy := by
  unfold opened
  cases hopens : activity.opens? with
  | none => exact h
  | some scope =>
    obtain ⟨kind, values⟩ := scope
    obtain ⟨-, -, hkind, houter⟩ := Eval.bound_same kind.parameters values
      (state.editChain fun chain => chain.enter kind)
    constructor
    · exact opening_shadows h.shadows kind values fun _ hname => hname
    · rw [Chain.BindsParameters, Chain.scopes, List.forall_mem_cons, hkind, houter]
      exact ⟨Eval.bound_binds (length_of_opens? hopens), h.bindsParameters⟩

variable {outer : Activity} {state : State}

theorem Reaches.isTidy {activity : Activity} {before : State}
    (h : outer.Reaches state activity before) (hstate : state.IsTidy) : before.IsTidy := by
  induction h with
  | self => exact hstate
  | inside _ hcomes ih => exact hcomes.local.isTidy (isTidy_opened _ ih)

theorem Passes.shadows {passed : State} (h : outer.Passes state passed) (hstate : state.IsTidy) :
    passed.chain.ShadowsParametersOnly := by
  cases h with
  | opening hreaches hopens count =>
    exact opening_shadows (hreaches.isTidy hstate).shadows _ _ fun _ => List.mem_of_mem_take
  | step hreaches hcomes =>
    exact hcomes.local.shadows (isTidy_opened _ (hreaches.isTidy hstate)).shadows
  | finished hreaches => exact (run_local _ _).shadows (hreaches.isTidy hstate).shadows

theorem Does.isTidy {effect : Effect} {before : State} (h : outer.Does state effect before)
    (hstate : state.IsTidy) : before.IsTidy := by
  obtain ⟨activity, start, next, hreaches, hcomes⟩ := h
  exact hcomes.local.isTidy (isTidy_opened _ (hreaches.isTidy hstate))

end Activity

/-- While a template is rendered, two scopes bind the same name only if it is a parameter of the
call that the inner one belongs to. What is assigned to a name is therefore read back at once, but
for a parameter of the running function that a scope around the call binds as well: it is read as
before. -/
theorem shadowing_by_parameters (template : Template) (allowance : Nat) (clock : Calendar.Instant) :
    (∀ state, (template.rendering allowance).Passes (template.start clock) state →
      state.chain.ShadowsParametersOnly) ∧
    ∀ name value state,
      (template.rendering allowance).Does (template.start clock) (.assign name value) state →
      ((Effect.assign name value).apply state).read? name =
        if name ∈ state.chain.current.kind.parameters ∧
          ∃ scope ∈ state.chain.outer, scope.binds name = true
        then state.read? name else some value := by
  have hstart := State.isTidy_initial template.constants clock
  constructor
  · intro state hpasses
    exact hpasses.shadows hstart
  · intro name value state hdoes
    obtain ⟨hshadows, hparameters⟩ := hdoes.isTidy hstart
    have hlookup := Chain.lookup_assign name value hshadows hparameters
    rw [Effect.apply, State.editChain, State.read?, hlookup]
    split
    · rfl
    · rfl

/-- A parameter hides a variable: `x = true; function f(x) x = null; f(false);`. -/
def hidingTemplate : Template :=
  let here : Location := ⟨"t", .start⟩
  ⟨"t", [.assign here "x" (.literal here (.bool true)),
    .function here "f" here ["x"] (.assign here "x" (.literal here .null)),
    .expr here (.call here "f" [.literal here (.bool false)])], .empty⟩

theorem shadowing_by_parameters_hidingTemplate :
    ∃ state, (hidingTemplate.rendering 2).Passes (hidingTemplate.start .newMonth) state ∧
      state.chain.ShadowsParametersOnly ∧
      (hidingTemplate.rendering 2).Does (hidingTemplate.start .newMonth)
        (.assign "x" .null) state ∧
      ((Effect.assign "x" .null).apply state).read? "x" = some (.bool false) := by
  obtain ⟨hshadows, hread⟩ := shadowing_by_parameters hidingTemplate 2 .newMonth
  -- The call is the third statement; the first two are done when it begins.
  have hstatement : (hidingTemplate.rendering 2).Reaches (hidingTemplate.start .newMonth) _ _ :=
    .inside .self (.behind rfl (.behind rfl (.here _ _)))
  have hcall := (hstatement.inside (.here _ _)).inside (.behind rfl (.look (.here _ _)))
  have hbody := hcall.inside (.here _ _)
  have hdoes : (hidingTemplate.rendering 2).Does (hidingTemplate.start .newMonth) _ _ :=
    ⟨_, _, _, hbody, .behind rfl (.here _ _)⟩
  have hpasses := Activity.Passes.step hbody (.behind rfl (.here _ _))
  refine ⟨_, hpasses, hshadows _ hpasses, hdoes, ?_⟩
  rw [hread _ _ _ hdoes]
  rfl

end MessageTemplate
