import MessageTemplate.Proofs.Evaluation.Alike
import MessageTemplate.Proofs.Scope.Matching

/-!
# States with other functions

Two states match if they differ at most in the functions of their scopes, and if
these are related. As long as related functions do alike when they are called,
all that is written in the same way comes out alike.
-/

namespace MessageTemplate

/-- The same state but for the functions of its scopes, which are related. -/
structure State.Matches (F : Function → Function → Prop) (first second : State) : Prop where
  chain : first.chain.Matches F second.chain
  constants : first.constants = second.constants
  clock : first.clock = second.clock
  document : first.document = second.document

variable {F : Function → Function → Prop}

namespace State.Matches

variable {first second : State}

theorem refl (hF : ∀ f, F f f) (state : State) : Matches F state state :=
  ⟨.refl hF state.chain, rfl, rfl, rfl⟩

theorem trans (hF : ∀ f g h, F f g → F g h → F f h) {third : State} (h : Matches F first second)
    (hthen : Matches F second third) : Matches F first third :=
  ⟨h.chain.trans hF hthen.chain, h.constants.trans hthen.constants, h.clock.trans hthen.clock,
    h.document.trans hthen.document⟩

theorem editChain (h : Matches F first second) {edit change : Chain → Chain}
    (hchain : (edit first.chain).Matches F (change second.chain)) :
    Matches F (first.editChain edit) (second.editChain change) :=
  ⟨hchain, h.constants, h.clock, h.document⟩

theorem editDocument (h : Matches F first second) (edit : Document → Document) :
    Matches F (first.editDocument edit) (second.editDocument edit) :=
  ⟨h.chain, h.constants, h.clock, congrArg edit h.document⟩

theorem read? (h : Matches F first second) (name : String) :
    first.read? name = second.read? name := by
  rw [State.read?, State.read?, h.chain.lookup, h.constants]

theorem function? (h : Matches F first second)
    (hsystem : ∀ name f, systemFunction? name = some f → F f f) (name : String) :
    Option.Rel F (first.function? name) (second.function? name) := by
  have hfound := h.chain.function? name
  rw [State.function?, State.function?]
  generalize first.chain.function? name = f? at hfound
  generalize second.chain.function? name = g? at hfound
  cases hfound with
  | some hfg => exact .some hfg
  | none =>
    rw [Option.none_or]
    cases hname : systemFunction? name with
    | none => exact .none
    | some f => exact .some (hsystem name f hname)

end State.Matches

namespace Eval

open Run (Alike Similar)

variable {α : Type}

theorem inScope_matches {run other : Eval α} (h : Similar (State.Matches F) run other)
    (kind : ScopeKind) : Similar (State.Matches F) (inScope kind run) (inScope kind other) :=
  inScope_similar (fun _ _ hmatches => hmatches.editChain (hmatches.chain.enter kind))
    (fun _ _ hmatches => hmatches.editChain hmatches.chain.leave) h

theorem allowsActs_matches : AllowsActs fun _ => Alike (State.Matches F) where
  toIsCompositional := isCompositional_alike (State.Matches F)
  edit := fun edit => .modify fun _ _ hmatches => hmatches.editDocument edit
  assign := fun name value =>
    .modify fun _ _ hmatches => hmatches.editChain (hmatches.chain.assign name value)
  record := fun value =>
    .modify fun _ _ hmatches => hmatches.editChain (hmatches.chain.record value)
  block := fun h => inScope_matches h .block

theorem read_matches (name : String) : Alike (State.Matches F) (read name) := by
  apply Alike.look
  intro first second hmatches
  rw [hmatches.read? name]
  refine ⟨rfl, ?_⟩
  cases second.read? name with
  | none => exact .throw _
  | some value => exact .pure value

theorem declare_matches {f g : Function} (hfg : F f g) (hname : f.name = g.name) :
    Similar (State.Matches F) (declare f) (declare g) :=
  .modify fun _ _ hmatches => hmatches.editChain (hmatches.chain.declare hfg hname)

theorem bindParameters_matches (parameters : List String) (values : List Value) :
    Alike (State.Matches F) (bindParameters parameters values) := by
  induction parameters generalizing values with
  | nil => cases values <;> exact .pure _
  | cons parameter parameters ih =>
    cases values with
    | nil => exact .pure _
    | cons value values =>
      have hbind : Alike (State.Matches F) (bind parameter value) :=
        .modify fun _ _ hmatches => hmatches.editChain (hmatches.chain.bind parameter value)
      exact .bind hbind fun _ => ih values

theorem recorded_matches : Alike (State.Matches F) recorded := by
  apply Alike.look
  intro first second hmatches
  rw [hmatches.chain.current.result]
  exact ⟨rfl, .pure _⟩

section

variable {call : Caller} (hsystem : ∀ name f, systemFunction? name = some f → F f f)
  (hcall : ∀ f g, F f g → ∀ values, Similar (State.Matches F) (call f values) (call g values))

include hsystem hcall

/-- The functions that are found under one name are related, so calling them comes out alike. -/
theorem call_matches (name : String) (values : List Value) :
    Alike (State.Matches F) (do call (← function name) values) := by
  rw [function, bind_assoc]
  apply Similar.look
  intro first second hmatches
  have hfound := hmatches.function? hsystem name
  generalize first.function? name = f? at hfound
  generalize second.function? name = g? at hfound
  cases hfound with
  | none => exact fun _ _ hmatches => .error _ hmatches
  | some hfg => exact hcall _ _ hfg values

theorem term_matches (e : Term) : Alike (State.Matches F) (term call e) := by
  apply allowsActs_matches.term e
  intro node _
  cases node with
  | var here name => exact read_matches name
  | call here name arguments => exact call_matches hsystem hcall name
  | _ => trivial

end

end Eval
end MessageTemplate
