import MessageTemplate.Proofs.Evaluation.Alike
import MessageTemplate.Proofs.Scope.Hiding

/-!
# Runs inside of hidden differences

A run cannot tell apart two states whose chains differ further out in a way that
is hidden: it gives the same answer or stops for the same reason, and leaves
states that differ in the same way. The functions that it finds are the same, so
this holds of calls as well, which open scopes of their own.
-/

namespace MessageTemplate

/-- The same state but for what is around the `depth` innermost scopes, which is related. -/
structure State.Around (Q : Chain → Chain → Prop) (depth : Nat) (first second : State) : Prop where
  chain : Chain.Around Q depth first.chain second.chain
  constants : first.constants = second.constants
  clock : first.clock = second.clock
  document : first.document = second.document

variable {Q : Chain → Chain → Prop}

theorem State.Around.editChain {depth other : Nat} {first second : State}
    (h : State.Around Q depth first second) {edit change : Chain → Chain}
    (hchain : Chain.Around Q other (edit first.chain) (change second.chain)) :
    State.Around Q other (first.editChain edit) (second.editChain change) :=
  ⟨hchain, h.constants, h.clock, h.document⟩

namespace Eval

open Run (Alike Similar)

variable {α : Type}

/-- From states that differ around any number of scopes the run ends alike. -/
def Ignores (Q : Chain → Chain → Prop) (run : Eval α) : Prop :=
  ∀ depth, Alike (State.Around Q depth) run

variable (hQ : Chain.IsHidden Q)

theorem inScope_ignores {run : Eval α} {kind : ScopeKind}
    (h : ∀ depth, Alike (State.Around Q (depth + 1)) run) : Ignores Q (inScope kind run) :=
  fun depth => inScope_similar (fun _ _ hR => hR.editChain (hR.chain.enter kind))
    (fun _ _ hR => hR.editChain hR.chain.leave) (h depth)

theorem isCompositional_ignores : IsCompositional fun _ => Ignores Q where
  pure := fun value _ => .pure value
  throw := fun stop _ => .throw stop
  bind := fun h hnext depth => .bind (h depth) fun value => hnext value depth
  located := fun h here depth => (h depth).adaptExcept (stampStop here)

include hQ

theorem allowsActs_ignores : AllowsActs fun _ => Ignores Q where
  toIsCompositional := isCompositional_ignores
  edit := fun edit _ => .modify fun _ _ hR =>
    ⟨hR.chain, hR.constants, hR.clock, congrArg edit hR.document⟩
  assign := fun name value _ => .modify fun _ _ hR => hR.editChain (hR.chain.assign hQ name value)
  record := fun value _ => .modify fun _ _ hR => hR.editChain (hR.chain.record hQ value)
  block := fun h => inScope_ignores fun depth => h (depth + 1)

theorem declare_ignores (f : Function) : Ignores Q (declare f) :=
  fun _ => .modify fun _ _ hR => hR.editChain (hR.chain.declare hQ f)

theorem read_ignores (name : String) : Ignores Q (read name) := by
  intro depth
  apply Alike.look
  intro first second hR
  rw [State.read?, State.read?, hR.chain.lookup hQ, hR.constants]
  refine ⟨rfl, ?_⟩
  cases (second.chain.lookup name).or (second.constants.get? name) with
  | none => exact .throw _
  | some value => exact .pure value

theorem function_ignores (name : String) : Ignores Q (function name) := by
  intro depth
  apply Alike.look
  intro first second hR
  rw [State.function?, State.function?, hR.chain.function? hQ]
  refine ⟨rfl, ?_⟩
  cases (second.chain.function? name).or (systemFunction? name) with
  | none => exact .throw _
  | some f => exact .pure f

section

variable {call : Caller} (hcall : ∀ f values, Ignores Q (call f values))

include hcall

theorem term_ignores (e : Term) : Ignores Q (term call e) := by
  apply (allowsActs_ignores hQ).term e
  intro node _
  cases node with
  | var here name => exact read_ignores hQ name
  | call here name arguments =>
    exact fun values => isCompositional_ignores.bind (function_ignores hQ name) fun f =>
      hcall f values
  | _ => trivial

theorem stmt_ignores (rounds : Nat) (s : Code) : Ignores Q (stmt call rounds s) :=
  (allowsActs_ignores hQ).stmt s (fun _ _ e _ => term_ignores hQ hcall e)
    fun _ _ f _ => declare_ignores hQ f

end

/-! ## Calls -/

omit hQ in
theorem bindParameters_ignores (parameters : List String) (values : List Value) (depth : Nat) :
    Alike (State.Around Q (depth + 1)) (bindParameters parameters values) := by
  induction parameters generalizing values with
  | nil => cases values <;> exact .pure _
  | cons parameter parameters ih =>
    cases values with
    | nil => exact .pure _
    | cons value values =>
      have hbind : Alike (State.Around Q (depth + 1)) (bind parameter value) :=
        .modify fun _ _ hR => hR.editChain (hR.chain.editCurrent _)
      exact .bind hbind fun _ => ih values

theorem functionBody_ignores {run : Code → Eval Unit} (hrun : ∀ s, Ignores Q (run s))
    (body : FunctionBody) : Ignores Q (functionBody run body) := by
  cases body with
  | code body => exact hrun body
  | clock =>
    intro depth
    apply Alike.look
    intro first second hR
    rw [hR.clock]
    exact ⟨rfl, (allowsActs_ignores hQ).record _ depth⟩

omit hQ in
theorem recorded_ignores (depth : Nat) : Alike (State.Around Q (depth + 1)) recorded := by
  apply Alike.look
  intro first second hR
  rw [hR.chain.current]
  exact ⟨rfl, .pure _⟩

theorem callWithin_ignores (allowance : Nat) (f : Function) (values : List Value) :
    Ignores Q (callWithin allowance f values) := by
  -- A call runs its body with a smaller allowance, so the calls inside are those of the hypothesis.
  induction allowance generalizing f values with
  | zero => exact fun _ => .throw _
  | succ allowance ih =>
    have hbody := functionBody_ignores hQ (fun s => stmt_ignores hQ ih allowance s) f.body
    rw [callWithin]
    unfold invoke
    split
    · exact fun _ => .throw _
    · apply inScope_ignores
      intro depth
      apply Alike.bind (bindParameters_ignores f.parameters values depth)
      intro _
      exact .bind (hbody (depth + 1)) fun _ => recorded_ignores depth

end Eval
end MessageTemplate
