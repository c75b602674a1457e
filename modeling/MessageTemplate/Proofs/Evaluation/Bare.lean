import MessageTemplate.Proofs.Evaluation.Declared
import MessageTemplate.Proofs.Tree.Names

/-!
# Expressions where nothing is declared

As long as no scope holds a function, an expression can call nothing but `now`,
and changes nothing. All its operands are evaluated, so it has a value only if
it calls nothing else anywhere.
-/

namespace MessageTemplate

/-- No scope holds a function. -/
def State.IsBare (state : State) : Prop := state.Declares fun _ => False

theorem State.isBare_initial (constants : Table Value) (clock : Calendar.Instant) :
    (State.initial constants clock).IsBare := declares_initial constants clock

/-- A bare state: the constant `n` is null, and nothing else is bound. -/
def nullConstant : State := .initial (Table.empty.insert "n" .null) .newMonth

theorem State.IsBare.function? {state : State} (h : state.IsBare) {name : String} {f : Function}
    (hf : state.function? name = some f) : name = "now" ∧ f = ⟨"now", [], .clock, none⟩ := by
  have hsystem : systemFunction? name = some f := by
    rw [State.function?, Option.or_eq_some_iff] at hf
    rcases hf with hfound | ⟨-, hfound⟩
    · obtain ⟨scope, hscope, hget⟩ := List.exists_of_findSome?_eq_some hfound
      exact (h scope hscope name f hget).elim
    · exact hfound
  rw [systemFunction?] at hsystem
  split at hsystem
  · rename_i hname
    exact ⟨hname, by rw [← Option.some.inj hsystem, hname]⟩
  · contradiction

namespace Eval

variable {α β : Type}

theorem function_of_some {state : State} {name : String} {f : Function}
    (h : state.function? name = some f) : function name state = .ok f state := by
  have hlook : (get : Eval State) state = .ok state state := rfl
  rw [function, Run.bind_of_ok hlook, h]
  rfl

theorem function_of_none {state : State} {name : String} (h : state.function? name = none) :
    function name state = .error (.failed (.unplaced (.undefinedFunction name))) state := by
  have hlook : (get : Eval State) state = .ok state state := rfl
  rw [function, Run.bind_of_ok hlook, h]
  rfl

/-- Calling `now` opens a scope for its answer, which is closed with it. -/
theorem callWithin_now (allowance : Nat) (values : List Value) (state : State) :
    callWithin (allowance + 1) ⟨"now", [], .clock, none⟩ values state =
      .ok (.instant state.clock) state := by
  cases values <;> rfl

/-! ## Nothing changes -/

/-- Where nothing is declared nothing has changed. -/
def StaysBare (before after : State) : Prop := before.IsBare → after = before

theorem StaysBare.isFrame : IsFrame StaysBare where
  refl := fun _ _ => rfl
  trans := by
    intro a b c hab hbc ha
    obtain rfl := hab ha
    exact hbc ha

theorem call_staysBare (allowance : Nat) (name : String) (values : List Value) :
    Keeps StaysBare (do callWithin allowance (← function name) values) := by
  intro state hbare
  cases hf : state.function? name with
  | none => rw [after, Run.bind_of_error (function_of_none hf)]
  | some f =>
    obtain ⟨rfl, rfl⟩ := hbare.function? hf
    rw [after_bind_of_ok (function_of_some hf)]
    cases allowance with
    | zero => rfl
    | succ allowance => rw [after, callWithin_now]

theorem term_staysBare (allowance : Nat) (e : Term) :
    Keeps StaysBare (term (callWithin allowance) e) := by
  apply (isCompositional_keeps StaysBare.isFrame).term e
  intro node _
  cases node with
  | var here name => exact read_keeps StaysBare.isFrame name
  | call here name arguments => exact call_staysBare allowance name
  | _ => trivial

/-! ## What an answer requires -/

/-- Where nothing is declared the run gives an answer only if the condition holds. -/
def Requires (P : Prop) (run : Eval α) : Prop :=
  ∀ state value after, state.IsBare → run state = .ok value after → P

namespace Requires

variable {P : Prop} {run : Eval α} {next : α → Eval β}

theorem first (h : Requires P run) : Requires P (run >>= next) := by
  intro state value after hbare hrun
  cases hfirst : run state with
  | ok answer mid => exact h state answer mid hbare hfirst
  | error stop mid =>
    rw [Run.bind_of_error hfirst] at hrun
    contradiction

theorem later (hkeeps : Keeps StaysBare run) (h : ∀ value, Requires P (next value)) :
    Requires P (run >>= next) := by
  intro state value after hbare hrun
  cases hfirst : run state with
  | ok answer mid =>
    rw [Run.bind_of_ok hfirst, hkeeps.of_ok hfirst hbare] at hrun
    exact h answer state value after hbare hrun
  | error stop mid =>
    rw [Run.bind_of_error hfirst] at hrun
    contradiction

theorem located (h : Requires P run) (here : Location) : Requires P (located here run) := by
  intro state value after hbare hrun
  cases hinside : run state with
  | ok answer mid => exact h state answer mid hbare hinside
  | error stop mid =>
    rw [Eval.located, Run.adaptExcept_of_error hinside] at hrun
    contradiction

end Requires

variable {P : Prop} {allowance : Nat}

theorem terms_require {values : List Term} {e : Term} (he : e ∈ values)
    (h : Requires P (term (callWithin allowance) e)) :
    Requires P (terms (callWithin allowance) values) := by
  induction values with
  | nil => contradiction
  | cons other values ih =>
    rw [terms]
    rcases List.mem_cons.1 he with rfl | he
    · exact h.first
    · exact .later (term_staysBare allowance other) fun _ => (ih he).first

/-- An expression has no value if one right inside it has none. -/
theorem term_requires_child {e child : Term} (hchild : child ∈ e.children)
    (h : Requires P (term (callWithin allowance) child)) :
    Requires P (term (callWithin allowance) e) := by
  cases e with
  | literal here value => contradiction
  | var here name => contradiction
  | list here items =>
    rw [term]
    exact (terms_require hchild h).first.located here
  | call here name arguments =>
    rw [term]
    exact (terms_require hchild h).first.located here
  | unary here op operand =>
    obtain rfl := List.mem_singleton.1 hchild
    rw [term]
    exact h.first.located here
  | binary here op left right =>
    rw [term]
    apply Requires.located
    rcases List.mem_pair.1 hchild with rfl | rfl
    · exact h.first
    · exact .later (term_staysBare allowance left) fun _ => h.first

theorem call_requires_now (here : Location) (name : String) (arguments : List Term) :
    Requires (name = "now") (term (callWithin allowance) (.call here name arguments)) := by
  have hterms : Keeps StaysBare (terms (callWithin allowance) arguments) :=
    (isCompositional_keeps StaysBare.isFrame).terms fun e _ => term_staysBare allowance e
  rw [term]
  refine .located (.later hterms fun values => .first ?_) here
  intro state f after hbare hfound
  cases hf : state.function? name with
  | none =>
    rw [function_of_none hf] at hfound
    contradiction
  | some f => exact (hbare.function? hf).1

/-- An expression that calls anything but `now`, anywhere in it, has no value. -/
theorem term_requires_calledNames (e : Term) :
    Requires (∀ name ∈ e.calledNames, name = "now") (term (callWithin allowance) e) := by
  induction e using Expr.induct with
  | step e ih =>
    intro state value after hbare hrun name hname
    rw [Expr.calledNames_eq, List.mem_append, List.mem_flatMap] at hname
    rcases hname with hself | ⟨child, hchild, hinside⟩
    · cases e with
      | call here called arguments =>
        obtain rfl := List.mem_singleton.1 hself
        exact call_requires_now here name arguments state value after hbare hrun
      | _ => contradiction
    · exact term_requires_child hchild (ih child hchild) state value after hbare hrun name hinside

end Eval
end MessageTemplate
