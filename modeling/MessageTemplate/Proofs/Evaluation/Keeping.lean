import MessageTemplate.Proofs.Evaluation.Closure
import MessageTemplate.Proofs.Evaluation.Frame

/-!
# Runs keep their frames

A frame that holds across each step of a run holds across the run. Expressions
read, call and nothing else; the parts of an embed also edit the document; what
a statement does in a scope of its own is seen from outside only after the scope
is closed.
-/

namespace MessageTemplate

namespace Expr

variable {L P : Type}

def isCall : Expr L P → Bool
  | .call _ _ _ => true
  | _ => false

/-- No function is called anywhere in the expression. -/
def IsCallFree (e : Expr L P) : Prop := ∀ node ∈ e.nodes, node.isCall = false

end Expr

namespace Run

variable {α β ε ε' : Type} {f : Stop ε → Stop ε'} {run : Run ε α} {next : α → Run ε β}
  {state after : State}

theorem bind_of_ok {value : α} (h : run state = .ok value after) :
    (run >>= next) state = next value after := by
  change EStateM.bind run next state = next value after
  unfold EStateM.bind
  rw [h]

theorem bind_of_error {stop : Stop ε} (h : run state = .error stop after) :
    (run >>= next) state = .error stop after := by
  change EStateM.bind run next state = .error stop after
  unfold EStateM.bind
  rw [h]

theorem adaptExcept_of_ok {value : α} (h : run state = .ok value after) :
    EStateM.adaptExcept f run state = .ok value after := by
  unfold EStateM.adaptExcept
  rw [h]

theorem adaptExcept_of_error {stop : Stop ε} (h : run state = .error stop after) :
    EStateM.adaptExcept f run state = .error (f stop) after := by
  unfold EStateM.adaptExcept
  rw [h]

end Run

namespace Eval

variable {α β : Type}

/-- The state in which a run ends, however it ends. -/
def after (run : Eval α) (state : State) : State :=
  match run state with
  | .ok _ state => state
  | .error _ state => state

theorem after_bind_of_ok {run : Eval α} {next : α → Eval β} {state mid : State} {value : α}
    (h : run state = .ok value mid) : after (run >>= next) state = after (next value) mid := by
  rw [after, after, Run.bind_of_ok h]

theorem located_of_ok {here : Location} {run : Eval α} {state mid : State} {value : α}
    (h : run state = .ok value mid) : located here run state = .ok value mid :=
  Run.adaptExcept_of_ok h

theorem located_of_error {here : Location} {run : Eval α} {state mid : State}
    {stop : Stop RuntimeError} (h : run state = .error stop mid) :
    located here run state = .error (stampStop here stop) mid :=
  Run.adaptExcept_of_error h

theorem located_congr {here : Location} {run : Eval α} {first second : State}
    (h : run first = run second) : located here run first = located here run second := by
  cases hfirst : run first with
  | ok value mid => rw [located_of_ok hfirst, located_of_ok (h.symm.trans hfirst)]
  | error stop mid => rw [located_of_error hfirst, located_of_error (h.symm.trans hfirst)]

theorem inScope_of_ok {kind : ScopeKind} {run : Eval α} {state mid : State} {value : α}
    (h : run (state.editChain fun chain => chain.enter kind) = .ok value mid) :
    inScope kind run state = .ok value (mid.editChain .leave) := by
  unfold inScope
  rw [h]

theorem inScope_of_error {kind : ScopeKind} {run : Eval α} {state mid : State}
    {stop : Stop RuntimeError}
    (h : run (state.editChain fun chain => chain.enter kind) = .error stop mid) :
    inScope kind run state = .error stop (mid.editChain .leave) := by
  unfold inScope
  rw [h]

/-- Each run goes from a state to one in the relation. -/
def Keeps (R : State → State → Prop) (run : Eval α) : Prop := ∀ state, R state (after run state)

namespace Keeps

variable {R S : State → State → Prop} {run : Eval α}

theorem mono (h : Keeps R run) (himp : ∀ a b, R a b → S a b) : Keeps S run :=
  fun state => himp _ _ (h state)

theorem of_ok (h : Keeps R run) {state mid : State} {value : α} (hrun : run state = .ok value mid) :
    R state mid := by
  have hstate := h state
  rwa [after, hrun] at hstate

theorem pure (hR : IsFrame R) (value : α) : Keeps R (Pure.pure value) := fun state => hR.refl state

theorem throw (hR : IsFrame R) (stop : Stop RuntimeError) : Keeps R (throw stop : Eval α) :=
  fun state => hR.refl state

theorem get (hR : IsFrame R) : Keeps R (get : Eval State) := fun state => hR.refl state

theorem modify {edit : State → State} (h : ∀ state, R state (edit state)) :
    Keeps R (modify edit : Eval PUnit) := h

theorem bind (hR : IsFrame R) {next : α → Eval β} (h : Keeps R run)
    (hnext : ∀ value, Keeps R (next value)) :
    Keeps R (run >>= next) := by
  intro state
  have hrun := h state
  change R state (match EStateM.bind run next state with | .ok _ s => s | .error _ s => s)
  unfold after at hrun
  unfold EStateM.bind
  cases hstate : run state with
  | ok value mid =>
    rw [hstate] at hrun
    exact hR.trans hrun (hnext value mid)
  | error stop mid =>
    rw [hstate] at hrun
    exact hrun

theorem located (h : Keeps R run) (here : Location) : Keeps R (located here run) := by
  intro state
  have hrun := h state
  unfold after at hrun ⊢
  cases hstate : run state with
  | ok value mid =>
    rw [hstate] at hrun
    rw [Eval.located, Run.adaptExcept_of_ok hstate]
    exact hrun
  | error stop mid =>
    rw [hstate] at hrun
    rw [Eval.located, Run.adaptExcept_of_error hstate]
    exact hrun

/-- Inside a scope another relation may hold, if closing the scope takes it to this one. -/
theorem inScope {kind : ScopeKind}
    (h : ∀ state, R state
      ((after run (state.editChain fun chain => chain.enter kind)).editChain .leave)) :
    Keeps R (inScope kind run) := by
  intro state
  have hrun := h state
  unfold after at hrun ⊢
  unfold Eval.inScope
  split at hrun <;> simp_all

end Keeps

theorem isCompositional_keeps {R : State → State → Prop} (hR : IsFrame R) :
    IsCompositional fun _ => Keeps R where
  pure := Keeps.pure hR
  throw := Keeps.throw hR
  bind := Keeps.bind hR
  located := Keeps.located

/-! ## Expressions -/

section

variable {R : State → State → Prop} {call : Caller}

theorem read_keeps (hR : IsFrame R) (name : String) : Keeps R (read name) := by
  apply Keeps.bind hR (.get hR)
  intro state
  split
  · exact .pure hR _
  · exact .throw hR _

theorem function_keeps (hR : IsFrame R) (name : String) : Keeps R (function name) := by
  apply Keeps.bind hR (.get hR)
  intro state
  split
  · exact .pure hR _
  · exact .throw hR _

/-- An expression keeps what its calls keep. -/
theorem term_keeps (hR : IsFrame R) (e : Term)
    (hcall : ∀ node ∈ e.nodes, node.isCall = true → ∀ f values, Keeps R (call f values)) :
    Keeps R (term call e) := by
  apply (isCompositional_keeps hR).term e
  intro node hnode
  cases node with
  | var here name => exact read_keeps hR name
  | call here name arguments =>
    exact fun values => .bind hR (function_keeps hR name) fun f => hcall _ hnode rfl f values
  | _ => trivial

theorem isFrame_eq : IsFrame fun a b : State => b = a :=
  ⟨fun _ => rfl, fun hab hbc => hbc.trans hab⟩

/-- An expression without calls changes nothing. -/
theorem after_term_of_isCallFree {e : Term} (h : e.IsCallFree) (state : State) :
    after (term call e) state = state := by
  refine term_keeps isFrame_eq e (fun node hnode hcall => ?_) state
  rw [h node hnode] at hcall
  contradiction

theorem eq_of_term_of_isCallFree {e : Term} (h : e.IsCallFree) {state mid : State} {value : Value}
    (hrun : term call e state = .ok value mid) : mid = state := by
  have hafter : after (term call e) state = state := after_term_of_isCallFree h state
  rwa [after, hrun] at hafter

theorem after_terms_of_isCallFree {exprs : List Term} (h : ∀ e ∈ exprs, e.IsCallFree)
    (state : State) : after (terms call exprs) state = state :=
  (isCompositional_keeps isFrame_eq).terms
    (fun e he state => after_term_of_isCallFree (h e he) state) state

end

/-! ## Statements -/

/-- What is local inside is confined outside. -/
theorem block_confined {run : Eval Unit} (h : Keeps Local run) :
    Keeps Confined (inScope .block run) := by
  apply Keeps.inScope
  intro state
  exact (h _).leave_block

theorem allowsActs_local : AllowsActs fun _ => Keeps Local where
  toIsCompositional := isCompositional_keeps Local.isFrame
  edit := fun _ => .modify fun state => (state.quiet_editDocument _).local
  assign := fun name value => .modify fun state => state.local_assign name value
  record := fun value => .modify fun state => (state.confined_record value).local
  block := fun h => (block_confined h).mono fun _ _ => Confined.local

section

variable {call : Caller} (hcall : ∀ f values, Keeps Quiet (call f values)) (rounds : Nat)

include hcall

theorem term_quiet (e : Term) : Keeps Quiet (term call e) :=
  term_keeps Quiet.isFrame e fun _ _ _ => hcall

theorem term_local (e : Term) : Keeps Local (term call e) :=
  (term_quiet hcall e).mono fun _ _ => Quiet.local

/-- Conditionals and loops. -/
theorem stmt_confined {s : Code} (hopens : s.opensScope = true)
    (hchildren : ∀ child ∈ s.children, Keeps Local (stmt call rounds child)) :
    Keeps Confined (stmt call rounds s) := by
  rw [stmt_of_opensScope call rounds hopens]
  apply Keeps.located
  apply block_confined
  exact allowsActs_local.inside allowsActs_local.assign (fun e _ => term_local hcall e) hchildren

theorem stmt_local (s : Code) : Keeps Local (stmt call rounds s) :=
  allowsActs_local.stmt s (fun _ _ e _ => term_local hcall e) fun _ _ f _ =>
    .modify fun state => state.local_declare f

end

/-! ## Calls -/

/-- The state after parameters have been bound to arguments. -/
def bound : List String → List Value → State → State
  | name :: names, value :: values, state =>
    bound names values (state.editChain fun chain => chain.bind name value)
  | _, _, state => state

theorem bindParameters_eq (names : List String) (values : List Value) (state : State) :
    bindParameters names values state = .ok () (bound names values state) := by
  induction names generalizing values state with
  | nil => cases values <;> rfl
  | cons name names ih =>
    cases values with
    | nil => rfl
    | cons value values => exact ih values _

/-- Binding parameters changes the bindings of the current scope alone. -/
theorem bound_same (names : List String) (values : List Value) (state : State) :
    (bound names values state).constants = state.constants ∧
      (bound names values state).clock = state.clock ∧
      (bound names values state).chain.current.kind = state.chain.current.kind ∧
      (bound names values state).chain.outer = state.chain.outer := by
  induction names generalizing values state with
  | nil => cases values <;> exact ⟨rfl, rfl, rfl, rfl⟩
  | cons name names ih =>
    cases values with
    | nil => exact ⟨rfl, rfl, rfl, rfl⟩
    | cons value values => exact ih values _

theorem functionBody_local {run : Code → Eval Unit} (hrun : ∀ s, Keeps Local (run s))
    (body : FunctionBody) : Keeps Local (functionBody run body) := by
  cases body with
  | code body => exact hrun body
  | clock =>
    apply Keeps.bind Local.isFrame (.get Local.isFrame)
    exact fun state => .modify fun state => (state.confined_record _).local

theorem invoke_quiet {run : Code → Eval Unit} (hrun : ∀ s, Keeps Local (run s)) (f : Function)
    (values : List Value) : Keeps Quiet (invoke run f values) := by
  unfold invoke
  split
  · exact .throw Quiet.isFrame _
  · apply Keeps.inScope
    intro state
    have hbody : Keeps Local (do functionBody run f.body; recorded) :=
      .bind Local.isFrame (functionBody_local hrun f.body) fun _ =>
        .bind Local.isFrame (.get Local.isFrame) fun _ => .pure Local.isFrame _
    obtain ⟨hconstants, hclock, hkind, houter⟩ := bound_same f.parameters values
      (state.editChain fun chain => chain.enter (.call f.parameters))
    rw [after_bind_of_ok (bindParameters_eq _ _ _)]
    exact (hbody _).leave_call hconstants hclock hkind houter

theorem callWithin_quiet (allowance : Nat) (f : Function) (values : List Value) :
    Keeps Quiet (callWithin allowance f values) := by
  induction allowance generalizing f values with
  | zero => exact .throw Quiet.isFrame _
  | succ allowance ih => exact invoke_quiet (stmt_local ih allowance) f values

/-- The frames of evaluation, for every state, every allowance and however the run ends: expressions
are quiet, and those without calls change nothing; conditionals and loops are confined; every
statement is local. -/
theorem evaluation_frame (allowance rounds : Nat) (state : State) :
    (∀ e : Term, Quiet state (after (expression allowance e) state)) ∧
      (∀ e : Term, e.IsCallFree → after (expression allowance e) state = state) ∧
      (∀ s : Code, s.opensScope = true →
        Confined state (after (stmt (callWithin allowance) rounds s) state)) ∧
      ∀ s : Code, Local state (after (stmt (callWithin allowance) rounds s) state) := by
  have hcall := callWithin_quiet allowance
  refine ⟨fun e => term_quiet hcall e state, fun e he => after_term_of_isCallFree he state, ?_,
    fun s => stmt_local hcall rounds s state⟩
  intro s hopens
  exact stmt_confined hcall rounds hopens (fun child _ => stmt_local hcall rounds child) state

/-- A conditional that declares a function and records a result. -/
def recordingBranch : Code :=
  .branch ⟨"t", .start⟩ (.literal ⟨"t", .start⟩ (.bool true))
    (.block ⟨"t", .start⟩ [.function ⟨"t", .start⟩ "f" ⟨"t", .start⟩ [] (.block ⟨"t", .start⟩ []),
      .result ⟨"t", .start⟩ (.call ⟨"t", .start⟩ "f" [])]) none

theorem evaluation_frame_recordingBranch :
    Expr.IsCallFree (.literal ⟨"t", .start⟩ .null : Term) ∧
      after (expression 2 (.literal ⟨"t", .start⟩ .null)) (.initial .empty .newMonth) =
        .initial .empty .newMonth ∧
      recordingBranch.opensScope = true ∧
      Confined (.initial .empty .newMonth)
        (after (stmt (callWithin 2) 2 recordingBranch) (.initial .empty .newMonth)) := by
  have hfree : Expr.IsCallFree (.literal ⟨"t", .start⟩ .null : Term) := by
    simp [Expr.IsCallFree, Expr.nodes, Expr.isCall]
  obtain ⟨-, hcallFree, hopens, -⟩ := evaluation_frame 2 2 (.initial .empty .newMonth)
  exact ⟨hfree, hcallFree _ hfree, rfl, hopens _ rfl⟩

end Eval
end MessageTemplate
