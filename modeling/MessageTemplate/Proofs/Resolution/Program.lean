import MessageTemplate.Proofs.Evaluation.Blame
import MessageTemplate.Proofs.Resolution.Places
import MessageTemplate.Resolution.Program

/-!
# Compiling keeps places

Compiling runs the expressions of constants in the outermost scope, between
making the items ready one after another. An error that such an expression has
stands at one of its nodes.
-/

namespace MessageTemplate

namespace Chain

theorem outermost_mem (chain : Chain) : chain.outermost ∈ chain.scopes := by
  rw [outermost, scopes]
  cases h : chain.outer.getLast? with
  | none => exact List.mem_cons_self
  | some scope => exact List.mem_cons_of_mem _ (List.mem_of_getLast? h)

theorem mem_scopes_withOutermost {chain : Chain} {last scope : Scope}
    (h : scope ∈ (chain.withOutermost last).scopes) : scope = last ∨ scope ∈ chain.scopes := by
  unfold withOutermost at h
  cases houter : chain.outer with
  | nil =>
    rw [houter] at h
    exact .inl (List.mem_singleton.1 h)
  | cons next outer =>
    rw [houter, scopes, List.mem_cons, List.mem_append, List.mem_singleton] at h
    rw [scopes, houter]
    rcases h with rfl | hscope | rfl
    · exact .inr List.mem_cons_self
    · exact .inr (List.mem_cons_of_mem _ (List.dropLast_subset _ hscope))
    · exact .inl rfl

end Chain

theorem State.Declares.atRoot {q : Function → Prop} {state : State} (h : state.Declares q) :
    (state.editChain fun chain => ⟨chain.outermost, []⟩).Declares q := by
  intro scope hscope
  rw [List.mem_singleton.1 hscope]
  exact h _ state.chain.outermost_mem

/-- The functions of the scopes behind the outermost one are those from before. -/
theorem State.Declares.restore {q : Function → Prop} {state after : State} (h : state.Declares q)
    (hafter : after.Declares q) :
    (after.editChain fun chain => state.chain.withOutermost chain.outermost).Declares q := by
  intro scope hscope
  rcases Chain.mem_scopes_withOutermost hscope with rfl | hold
  · exact hafter _ after.chain.outermost_mem
  · exact h _ hold

theorem Eval.keepsDeclared_atRoot {α : Type} {q : Function → Prop} {run : Eval α}
    (h : KeepsDeclared q run) : KeepsDeclared q (atRoot run) := by
  intro state hstate
  have hrun := h _ hstate.atRoot
  unfold after at hrun ⊢
  rw [atRoot]
  cases hresult : run (state.editChain fun chain => ⟨chain.outermost, []⟩) with
  | ok value mid =>
    rw [hresult] at hrun
    exact hstate.restore hrun
  | error stop mid =>
    rw [hresult] at hrun
    exact hstate.restore hrun

namespace Compile

variable {α β : Type} {p : Location → Prop} {q : α → Prop} {file : String}

/-- What is made satisfies a condition and so do the functions of the scopes, or an error stands at
a place that does. -/
def Settled (p : Location → Prop) (q : α → Prop) : EStateM.Result (Stop CompileError) State α → Prop
  | .ok value state => q value ∧ state.Declares (Function.Marked p)
  | .error (.failed error) _ => ∃ here, error.location = some here ∧ p here
  | .error .exhausted _ => True

def Settles (p : Location → Prop) (q : α → Prop) (run : Compile α) : Prop :=
  ∀ state : State, state.Declares (Function.Marked p) → Settled p q (run state)

namespace Settles

theorem pure {value : α} (h : q value) : Settles p q (pure value) := fun _ hstate => ⟨h, hstate⟩

theorem bind {q' : β → Prop} {run : Compile α} {next : α → Compile β} (h : Settles p q run)
    (hnext : ∀ value, q value → Settles p q' (next value)) : Settles p q' (run >>= next) := by
  intro state hstate
  have hrun := h state hstate
  change Settled p q' (EStateM.bind run next state)
  unfold EStateM.bind
  cases hresult : run state with
  | ok value mid =>
    rw [hresult] at hrun
    exact hnext value hrun.1 mid hrun.2
  | error stop mid =>
    rw [hresult] at hrun
    cases stop with
    | failed error => exact hrun
    | exhausted => trivial

theorem ofResolved {result : Resolve.Resolved α} (h : Resolve.Settles p q result) :
    Settles p q (ofResolved result) := by
  intro state hstate
  cases result with
  | ok value => exact ⟨h, hstate⟩
  | error error => exact h

theorem setConstant (name : String) (value : Value) :
    Settles p (fun _ : PUnit => True) (modify fun state => state.setConstant name value) :=
  fun _ hstate => ⟨trivial, hstate⟩

end Settles

/-- Running with the outermost scope as the current one fails as it does elsewhere. -/
theorem exists_of_atRoot_error {run : Eval α} {state after : State} {stop : Stop RuntimeError}
    (h : Eval.atRoot run state = .error stop after) :
    ∃ mid, run (state.editChain fun chain => ⟨chain.outermost, []⟩) = .error stop mid := by
  rw [Eval.atRoot] at h
  cases hrun : run (state.editChain fun chain => ⟨chain.outermost, []⟩) with
  | ok value mid =>
    rw [hrun] at h
    contradiction
  | error inner mid =>
    rw [hrun] at h
    obtain ⟨rfl, -⟩ := EStateM.Result.error.inj h
    exact ⟨mid, rfl⟩

/-- An error of a constant stands at the node that is to blame, not at the constant. -/
theorem constantValue_settles {allowance : Nat} {here : Location} {value : Term}
    (h : value.Marked p) :
    Settles p (fun _ => True) (constantValue allowance here value) := by
  intro state hstate
  have hterm : (Activity.term allowance value).Marked p := h
  have hkeeps := Eval.keepsDeclared_atRoot (Activity.run_keepsDeclared hterm) state hstate
  change (Eval.after (Eval.atRoot (Eval.expression allowance value)) state).Declares _ at hkeeps
  rw [Eval.after] at hkeeps
  cases hrun : Eval.atRoot (Eval.expression allowance value) state with
  | ok result mid =>
    rw [hrun] at hkeeps
    rw [constantValue, Run.adaptExcept_of_ok hrun]
    exact ⟨trivial, hkeeps⟩
  | error stop mid =>
    rw [constantValue, Run.adaptExcept_of_error hrun]
    cases stop with
    | exhausted => trivial
    | failed error =>
      obtain ⟨between, hfails⟩ := exists_of_atRoot_error hrun
      obtain ⟨blamed, fault, rfl, hblames⟩ :=
        Activity.blames_of_run_error (.term allowance value) hfails
      obtain ⟨there, hplace, hthere⟩ := hblames.place hterm (hstate.atRoot)
      rw [hplace]
      exact ⟨there, rfl, hthere⟩

theorem item_settles {allowance : Nat} {i : SourceItem} (h : i.Marked (Resolve.inFile file p)) :
    Settles p (Stmt.Marked p) (item allowance file i) := by
  cases i with
  | stmt s => exact .ofResolved (Resolve.stmt_settles h)
  | constant place name value =>
    apply Settles.bind (.ofResolved (Resolve.expr_settles h.2))
    intro term hterm
    apply Settles.bind (constantValue_settles hterm)
    intro result _
    apply Settles.bind (.setConstant name result)
    intro _ _
    exact .pure (Resolve.marked_of_empty h.1)

/-- The places of a template are those of its items, and so are the places of its errors. -/
theorem template_settles {allowance : Nat} {items : SourceTemplate}
    (h : ∀ i ∈ items, i.Marked (Resolve.inFile file p)) :
    Settles p (fun code => ∀ s ∈ code, Stmt.Marked p s) (template allowance file items) := by
  induction items with
  | nil => exact .pure (by simp)
  | cons i items ih =>
    rw [List.forall_mem_cons] at h
    unfold template
    apply Settles.bind (item_settles h.1)
    intro code hcode
    apply Settles.bind (ih h.2)
    intro rest hrest
    exact .pure (List.forall_mem_cons.2 ⟨hcode, hrest⟩)

end Compile
end MessageTemplate
