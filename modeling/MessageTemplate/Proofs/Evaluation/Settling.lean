import MessageTemplate.Proofs.Evaluation.Answers

/-!
# What the scope settles

Expressions never read the document. So without calls the scope alone settles
how a run ends and how it changes the document: it succeeds with every document
or with none, and its change is the same for all of them.
-/

namespace MessageTemplate
namespace Eval

/-- A kind of changes to which no change belongs, and two of them in a row. -/
structure IsChangeKind (kind : (Document → Document) → Prop) : Prop where
  none : kind id
  comp : ∀ {change next}, kind change → kind next → kind fun document => next (change document)

theorem isChangeKind_none : IsChangeKind (· = id) where
  none := rfl
  comp := by
    rintro _ _ rfl rfl
    rfl

/-- A run ends in one way or the other. -/
def settle {α : Type} (outcome : Except (Stop RuntimeError) α) (state : State) :
    EStateM.Result (Stop RuntimeError) State α :=
  match outcome with
  | .ok value => .ok value state
  | .error stop => .error stop state

/-- Whatever the document is, a run ends in the same way and makes the same change, one of some
kind. -/
def Settled {α : Type} (kind : (Document → Document) → Prop) (state : State) (run : Eval α) :
    Prop :=
  ∃ outcome change, kind change ∧ ∀ document,
    run { state with document } = settle outcome { state with document := change document }

variable {kind : (Document → Document) → Prop}

theorem settled_editDocument {change : Document → Document} (h : kind change) (state : State) :
    Settled kind state (editDocument change) :=
  ⟨.ok (), change, h, fun _ => rfl⟩

/-- A run that changes no document does with every document what it does with one. -/
theorem Settled.run_eq {α : Type} {run : Eval α} {state : State} (h : Settled (· = id) state run)
    (document : Document) :
    ∃ outcome, run state = settle outcome state ∧
      run { state with document } = settle outcome { state with document } := by
  obtain ⟨outcome, _, rfl, heq⟩ := h
  exact ⟨outcome, heq state.document, heq document⟩

section

variable (hkind : IsChangeKind kind)

include hkind

/-- The document is never read. -/
theorem settled_read (name : String) (state : State) : Settled kind state (read name) := by
  cases hvalue : state.read? name with
  | none =>
    refine ⟨.error (.failed (.unplaced (.undefinedVariable name))), id, hkind.none,
      fun document => ?_⟩
    have hsame : State.read? { state with document } name = none := hvalue
    rw [read, Run.bind_of_ok (rfl : (get : Eval State) _ = .ok _ _), hsame]
    rfl
  | some value =>
    refine ⟨.ok value, id, hkind.none, fun document => ?_⟩
    have hsame : State.read? { state with document } name = some value := hvalue
    rw [read, Run.bind_of_ok (rfl : (get : Eval State) _ = .ok _ _), hsame]
    rfl

theorem isCompositional_settled :
    IsCompositional fun _ run => ∀ state, Settled kind state run where
  pure := fun value _ => ⟨.ok value, id, hkind.none, fun _ => rfl⟩
  throw := fun stop _ => ⟨.error stop, id, hkind.none, fun _ => rfl⟩
  bind := by
    intro α β run next hrun hnext state
    obtain ⟨outcome, change, hchange, heq⟩ := hrun state
    cases outcome with
    | error stop =>
      refine ⟨.error stop, change, hchange, fun document => ?_⟩
      rw [Run.bind_of_error (heq document)]
      rfl
    | ok value =>
      obtain ⟨last, second, hsecond, hlast⟩ := hnext value state
      refine ⟨last, _, hkind.comp hchange hsecond, fun document => ?_⟩
      rw [Run.bind_of_ok (heq document)]
      exact hlast (change document)
  located := by
    intro α run hrun here state
    obtain ⟨outcome, change, hchange, heq⟩ := hrun state
    cases outcome with
    | error stop =>
      exact ⟨.error (stampStop here stop), change, hchange, fun document =>
        located_of_error (heq document)⟩
    | ok value => exact ⟨.ok value, change, hchange, fun document => located_of_ok (heq document)⟩

theorem settled_term {call : Caller} {e : Term} (h : e.IsCallFree) (state : State) :
    Settled kind state (term call e) := by
  refine (isCompositional_settled hkind).term e (fun node hnode => ?_) state
  cases node with
  | var here name => exact settled_read hkind name
  | call here name arguments => exact absurd (h _ hnode) (by simp [Expr.isCall])
  | _ => trivial

end

end Eval
end MessageTemplate
