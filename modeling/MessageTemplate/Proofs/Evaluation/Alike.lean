import MessageTemplate.Proofs.Evaluation.Declared
import MessageTemplate.Proofs.Tree.Names

/-!
# Runs from states that agree

Two states agree on some names if they differ at most in constants with other
names and, unless `now` is among the functions, in the clock. A run that reads
and calls nothing but these names cannot tell such states apart: it gives the
same answer, or stops for the same reason, and leaves states that agree again.
-/

namespace MessageTemplate

namespace Run

/-- Two runs end in the same way and in related states. -/
inductive EndAlike {ε α : Type} (R : State → State → Prop) :
    EStateM.Result (Stop ε) State α → EStateM.Result (Stop ε) State α → Prop
  | ok (value : α) {first second : State} (h : R first second) :
      EndAlike R (.ok value first) (.ok value second)
  | error (stop : Stop ε) {first second : State} (h : R first second) :
      EndAlike R (.error stop first) (.error stop second)

/-- From related states the two runs end alike. -/
def Similar {ε α : Type} (R : State → State → Prop) (run other : Run ε α) : Prop :=
  ∀ first second, R first second → EndAlike R (run first) (other second)

/-- From related states the run ends alike. -/
def Alike {ε α : Type} (R : State → State → Prop) (run : Run ε α) : Prop :=
  ∀ first second, R first second → EndAlike R (run first) (run second)

variable {ε ε' α β : Type} {R : State → State → Prop}

theorem EndAlike.mono {S : State → State → Prop} {one two : EStateM.Result (Stop ε) State α}
    (h : EndAlike R one two) (himp : ∀ first second, R first second → S first second) :
    EndAlike S one two := by
  cases h with
  | ok value hR => exact .ok value (himp _ _ hR)
  | error stop hR => exact .error stop (himp _ _ hR)

namespace Similar

variable {run other : Run ε α}

theorem modify {edit change : State → State}
    (h : ∀ first second, R first second → R (edit first) (change second)) :
    Similar R (modify edit : Run ε PUnit) (modify change) :=
  fun first second hR => .ok _ (h first second hR)

theorem bind {next more : α → Run ε β} (h : Similar R run other)
    (hnext : ∀ value, Similar R (next value) (more value)) :
    Similar R (run >>= next) (other >>= more) := by
  intro first second hR
  have hends := h first second hR
  change EndAlike R (EStateM.bind run next first) (EStateM.bind other more second)
  unfold EStateM.bind
  generalize run first = firstEnd at hends
  generalize other second = secondEnd at hends
  cases hends with
  | ok value hmid => exact hnext value _ _ hmid
  | error stop hmid => exact .error stop hmid

theorem adaptExcept (f : Stop ε → Stop ε') (h : Similar R run other) :
    Similar R (EStateM.adaptExcept f run) (EStateM.adaptExcept f other) := by
  intro first second hR
  have hends := h first second hR
  unfold EStateM.adaptExcept
  generalize run first = firstEnd at hends
  generalize other second = secondEnd at hends
  cases hends with
  | ok value hmid => exact .ok value hmid
  | error stop hmid => exact .error (f stop) hmid

/-- What is found in related states may be different, as long as what follows is similar. -/
theorem look {next more : State → Run ε α}
    (h : ∀ first second, R first second → Similar R (next first) (more second)) :
    Similar R (get >>= next) (get >>= more) :=
  fun first second hR => h first second hR first second hR

theorem trans {third : Run ε α} (hrefl : ∀ state, R state state)
    (htrans : ∀ {a b c}, R a b → R b c → R a c) (h : Similar R run other)
    (hthen : Similar R other third) : Similar R run third := by
  intro first second hR
  have hends := h first first (hrefl first)
  have hmore := hthen first second hR
  generalize run first = firstEnd at hends
  generalize other first = midEnd at hends hmore
  generalize third second = secondEnd at hmore
  cases hends with
  | ok value hmid =>
    cases hmore with
    | ok _ hlast => exact .ok value (htrans hmid hlast)
  | error stop hmid =>
    cases hmore with
    | error _ hlast => exact .error stop (htrans hmid hlast)

end Similar

namespace Alike

variable {run : Run ε α}

theorem pure (value : α) : Alike R (Pure.pure value : Run ε α) := fun _ _ h => .ok value h

theorem throw (stop : Stop ε) : Alike R (throw stop : Run ε α) := fun _ _ h => .error stop h

theorem modify {edit : State → State}
    (h : ∀ first second, R first second → R (edit first) (edit second)) :
    Alike R (modify edit : Run ε PUnit) := Similar.modify h

theorem bind {next : α → Run ε β} (h : Alike R run) (hnext : ∀ value, Alike R (next value)) :
    Alike R (run >>= next) := Similar.bind h hnext

/-- Looking at related states shows the same. -/
theorem look {next : State → Run ε α}
    (h : ∀ first second, R first second → next first = next second ∧ Alike R (next first)) :
    Alike R (get >>= next) := by
  apply Similar.look
  intro first second hR
  obtain ⟨heq, halike⟩ := h first second hR
  rw [← heq]
  exact halike

theorem adaptExcept (f : Stop ε → Stop ε') (h : Alike R run) :
    Alike R (EStateM.adaptExcept f run) := Similar.adaptExcept f h

end Alike
end Run

/-! ## States that agree -/

/-- The states differ at most in constants that are not among the names, and in the clock if `now`
is not among them. The functions that the scopes declare use only these names. -/
structure Agree (names : Names) (first second : State) : Prop where
  chain : first.chain = second.chain
  document : first.document = second.document
  constants : ∀ name, names.reads name → first.constants.get? name = second.constants.get? name
  clock : names.calls "now" → first.clock = second.clock
  functions : first.Declares (Function.Within names)

namespace Agree

variable {names : Names} {first second : State}

theorem editChain {edit : Chain → Chain} (h : Agree names first second)
    (hfunctions : (first.editChain edit).Declares (Function.Within names)) :
    Agree names (first.editChain edit) (second.editChain edit) where
  chain := congrArg edit h.chain
  document := h.document
  constants := h.constants
  clock := h.clock
  functions := hfunctions

theorem apply (h : Agree names first second) {effect : Effect}
    (heffect : effect.Declares (Function.Within names)) :
    Agree names (effect.apply first) (effect.apply second) := by
  have hfunctions := h.functions.apply heffect
  cases effect with
  | edit change => exact ⟨h.chain, congrArg change h.document, h.constants, h.clock, hfunctions⟩
  | assign | declare | record => exact h.editChain hfunctions

theorem read? (h : Agree names first second) {name : String} (hname : names.reads name) :
    first.read? name = second.read? name := by
  rw [State.read?, State.read?, h.chain, h.constants name hname]

theorem function? (h : Agree names first second) (name : String) :
    first.function? name = second.function? name := by
  rw [State.function?, State.function?, h.chain]

theorem initial {constants others : Table Value} {clock now : Calendar.Instant}
    (hconstants : ∀ name, names.reads name → constants.get? name = others.get? name)
    (hclock : names.calls "now" → clock = now) :
    Agree names (.initial constants clock) (.initial others now) :=
  ⟨rfl, rfl, hconstants, hclock, State.declares_initial constants clock⟩

end Agree

namespace Eval

open Run (EndAlike Alike Similar)

variable {names : Names} {α : Type}

theorem effect_alike (effect : Effect) (h : effect.Declares (Function.Within names)) :
    Alike (Agree names) (modify effect.apply : Eval PUnit) :=
  .modify fun _ _ hagree => hagree.apply h

/-- Two runs are similar in a scope if they are without it. Inside the scope another relation may
hold. -/
theorem inScope_similar {R S : State → State → Prop} {run other : Eval α} {kind : ScopeKind}
    (henter : ∀ first second, R first second → S (first.editChain fun chain => chain.enter kind)
      (second.editChain fun chain => chain.enter kind))
    (hleave : ∀ first second, S first second → R (first.editChain .leave) (second.editChain .leave))
    (h : Similar S run other) : Similar R (inScope kind run) (inScope kind other) := by
  intro first second hR
  have hends := h _ _ (henter first second hR)
  unfold inScope
  generalize run (first.editChain fun chain => chain.enter kind) = firstEnd at hends
  generalize other (second.editChain fun chain => chain.enter kind) = secondEnd at hends
  cases hends with
  | ok value hafter => exact .ok value (hleave _ _ hafter)
  | error stop hafter => exact .error stop (hleave _ _ hafter)

theorem inScope_alike {run : Eval α} (h : Alike (Agree names) run) (kind : ScopeKind) :
    Alike (Agree names) (inScope kind run) :=
  inScope_similar (fun _ _ hagree => hagree.editChain (hagree.functions.enter kind))
    (fun _ _ hagree => hagree.editChain hagree.functions.leave) h

/-! ## Expressions -/

theorem read_alike {name : String} (h : names.reads name) : Alike (Agree names) (read name) := by
  apply Alike.look
  intro first second hagree
  rw [hagree.read? h]
  refine ⟨rfl, ?_⟩
  cases second.read? name with
  | none => exact .throw _
  | some value => exact .pure value

/-- A function that is found uses allowed names, so calling it comes out alike. -/
theorem call_alike {call : Caller}
    (hcall : ∀ f, Function.Within names f → ∀ values, Alike (Agree names) (call f values))
    {name : String} (h : names.calls name) (values : List Value) :
    Alike (Agree names) (do call (← function name) values) := by
  rw [function, bind_assoc]
  apply Alike.look
  intro first second hagree
  rw [← hagree.function? name]
  refine ⟨rfl, ?_⟩
  -- Which function is called is known only now, but all that can be found are within the names.
  cases hf : first.function? name with
  | none => exact fun _ _ hagree => .error _ hagree
  | some f =>
    have hwithin := hagree.functions.function? (fun _ => Function.within_of_system h) hf
    exact hcall f hwithin values

theorem isCompositional_alike (R : State → State → Prop) : IsCompositional fun _ => Alike R where
  pure := .pure
  throw := .throw
  bind := .bind
  located := fun h here => h.adaptExcept (stampStop here)

theorem allowsActs_alike : AllowsActs fun _ => Alike (Agree names) where
  toIsCompositional := isCompositional_alike (Agree names)
  edit := fun change => effect_alike (.edit change) trivial
  assign := fun name value => effect_alike (.assign name value) trivial
  record := fun value => effect_alike (.record value) trivial
  block := fun h => inScope_alike h .block

section

variable {call : Caller}
  (hcall : ∀ f, Function.Within names f → ∀ values, Alike (Agree names) (call f values))

include hcall

theorem term_alike {e : Term} (h : e.Within names) : Alike (Agree names) (term call e) := by
  apply allowsActs_alike.term e
  intro node hnode
  cases node with
  | var here name => exact read_alike (h.reads name (List.mem_filterMap.2 ⟨_, hnode, rfl⟩))
  | call here name arguments =>
    exact call_alike hcall (h.calls name (List.mem_filterMap.2 ⟨_, hnode, rfl⟩))
  | _ => trivial

theorem stmt_alike {s : Code} (h : s.Within names) (rounds : Nat) :
    Alike (Agree names) (stmt call rounds s) := by
  apply allowsActs_alike.stmt s
  · intro node hnode e he
    exact term_alike hcall ((Stmt.within_iff.1 (h.node hnode)).1 e he)
  · intro node hnode f hf
    apply effect_alike (.declare f)
    cases node with
    | function here name namePlace parameters body =>
      obtain rfl := Option.some.inj hf
      exact (Stmt.within_iff.1 (h.node hnode)).2 body (by simp [Stmt.children])
    | _ => contradiction

end

/-! ## Calls -/

theorem bindParameters_alike (parameters : List String) (values : List Value) :
    Alike (Agree names) (bindParameters parameters values) := by
  induction parameters generalizing values with
  | nil => cases values <;> exact .pure _
  | cons parameter parameters ih =>
    cases values with
    | nil => exact .pure _
    | cons value values =>
      have hbind : Alike (Agree names) (bind parameter value) :=
        .modify fun _ _ hagree => hagree.editChain (hagree.functions.of_functions rfl)
      exact .bind hbind fun _ => ih values

theorem functionBody_alike {run : Code → Eval Unit}
    (hrun : ∀ s, Stmt.Within names s → Alike (Agree names) (run s)) {body : FunctionBody}
    (h : body.Within names) : Alike (Agree names) (functionBody run body) := by
  cases body with
  | code body => exact hrun body h
  | clock =>
    apply Alike.look
    intro first second hagree
    rw [hagree.clock h]
    exact ⟨rfl, effect_alike (.record _) trivial⟩

theorem recorded_alike : Alike (Agree names) recorded := by
  apply Alike.look
  intro first second hagree
  rw [hagree.chain]
  exact ⟨rfl, .pure _⟩

theorem callWithin_alike (allowance : Nat) (f : Function) (h : f.Within names)
    (values : List Value) : Alike (Agree names) (callWithin allowance f values) := by
  -- A call runs its body with a smaller allowance, so the calls inside are those of the hypothesis.
  induction allowance generalizing f values with
  | zero => exact .throw _
  | succ allowance ih =>
    have hbody := functionBody_alike (fun s hs => stmt_alike ih hs allowance) h
    rw [callWithin]
    unfold invoke
    split
    · exact .throw _
    · apply inScope_alike
      apply Alike.bind (bindParameters_alike f.parameters values)
      intro _
      exact .bind hbody fun _ => recorded_alike

/-! ## Programs -/

theorem expression_alike (allowance : Nat) {e : Term} (h : e.Within names) :
    Alike (Agree names) (expression allowance e) :=
  term_alike (callWithin_alike allowance) h

/-- A program cannot tell apart states that agree on the names in it. -/
theorem program_alike (allowance : Nat) {code : List Code}
    (h : ∀ s ∈ code, Stmt.Within names s) : Alike (Agree names) (program allowance code) :=
  allowsActs_alike.stmts fun s hs => stmt_alike (callWithin_alike allowance) (h s hs) allowance

end Eval
end MessageTemplate
