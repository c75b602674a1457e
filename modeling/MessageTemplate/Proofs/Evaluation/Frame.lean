import MessageTemplate.Evaluation.Stmt
import MessageTemplate.Proofs.Scope.Frame
import MessageTemplate.Proofs.Tree.Nodes

/-!
# What a run can change

Three relations between the states before and after a run, from the strictest to
the loosest: expressions are quiet, statements that open a scope are confined,
and all statements are local. Each is kept by every step, so it is kept by a
whole run, whether the run succeeds or stops early. Only closing a scope takes
one relation to another.
-/

namespace MessageTemplate

/-- Only values of bound variables and the document have changed. -/
structure Quiet (before after : State) : Prop where
  constants : after.constants = before.constants
  clock : after.clock = before.clock
  scopes : SameScopes before.chain.scopes after.chain.scopes
  results : after.chain.results = before.chain.results

/-- Besides, the result of the nearest call may have changed, or that of the outermost scope. -/
structure Confined (before after : State) : Prop where
  constants : after.constants = before.constants
  clock : after.clock = before.clock
  scopes : SameScopes before.chain.scopes after.chain.scopes
  results : ∃ value, after.chain.results = before.chain.results.set before.chain.owner value

/-- Besides, the current scope may have got functions, and names that no scope around it binds. -/
structure Local (before after : State) : Prop where
  constants : after.constants = before.constants
  clock : after.clock = before.clock
  kind : after.chain.current.kind = before.chain.current.kind
  names : ∀ name, before.chain.current.binds name = true → after.chain.current.binds name = true
  fresh : ∀ name, after.chain.current.binds name = true → before.chain.current.binds name = false →
    ∀ scope ∈ before.chain.outer, scope.binds name = false
  outer : SameScopes before.chain.outer after.chain.outer
  results : ∃ value, after.chain.results = before.chain.results.set before.chain.owner value

/-- A relation that one step after another keeps. -/
structure IsFrame (R : State → State → Prop) : Prop where
  refl : ∀ state, R state state
  trans : ∀ {a b c}, R a b → R b c → R a c

theorem results_set_owner (chain : Chain) :
    ∃ value, chain.results = chain.results.set chain.owner value := by
  have hlt := chain.owner_lt_length
  exact ⟨chain.results[chain.owner], (List.set_getElem_self hlt).symm⟩

theorem Quiet.confined {before after : State} (h : Quiet before after) : Confined before after := by
  obtain ⟨value, hvalue⟩ := results_set_owner before.chain
  exact ⟨h.constants, h.clock, h.scopes, value, h.results.trans hvalue⟩

theorem Confined.local {before after : State} (h : Confined before after) : Local before after := by
  have hscopes := h.scopes
  rw [Chain.scopes, Chain.scopes] at hscopes
  cases hscopes with
  | cons hcurrent houter =>
    constructor
    · exact h.constants
    · exact h.clock
    · exact hcurrent.kind
    · intro name hname
      rwa [hcurrent.names]
    · intro name hname hbefore
      rw [hcurrent.names, hbefore] at hname
      contradiction
    · exact houter
    · exact h.results

theorem Quiet.local {before after : State} (h : Quiet before after) : Local before after :=
  h.confined.local

theorem Quiet.isFrame : IsFrame Quiet := by
  constructor
  · exact fun state => ⟨rfl, rfl, .refl _, rfl⟩
  · intro a b c hab hbc
    exact ⟨hbc.constants.trans hab.constants, hbc.clock.trans hab.clock,
      hab.scopes.trans hbc.scopes, hbc.results.trans hab.results⟩

theorem Local.kinds {before after : State} (h : Local before after) :
    after.chain.scopes.map Scope.kind = before.chain.scopes.map Scope.kind := by
  rw [Chain.scopes, Chain.scopes, List.map_cons, List.map_cons, h.kind, h.outer.kinds]

theorem Local.isFrame : IsFrame Local := by
  constructor
  · exact fun state => (Quiet.isFrame.refl state).local
  · intro a b c hab hbc
    constructor
    · exact hbc.constants.trans hab.constants
    · exact hbc.clock.trans hab.clock
    · exact hbc.kind.trans hab.kind
    · exact fun name hname => hbc.names name (hab.names name hname)
    · intro name hafter hbefore
      by_cases hmid : b.chain.current.binds name = true
      · exact hab.fresh name hmid hbefore
      · exact hab.outer.symm.forall_binds (hbc.fresh name hafter (by simpa using hmid))
    · exact hab.outer.trans hbc.outer
    · obtain ⟨first, hfirst⟩ := hab.results
      obtain ⟨second, hsecond⟩ := hbc.results
      refine ⟨second, ?_⟩
      rw [hsecond, Chain.owner_eq hab.kinds, hfirst, List.set_set]

/-! ## Single changes of the state -/

namespace State

variable (state : State)

theorem quiet_editDocument (edit : Document → Document) : Quiet state (state.editDocument edit) :=
  ⟨rfl, rfl, .refl _, rfl⟩

theorem local_assign (name : String) (value : Value) :
    Local state (state.editChain fun chain => chain.assign name value) := by
  rcases state.chain.assign_cases name value with
    ⟨outer, hassign, hsame, hresults⟩ | ⟨hassign, hfree⟩
  · apply Quiet.local
    constructor
    · rfl
    · rfl
    · rw [editChain, hassign]
      exact .cons (.refl _) hsame
    · rw [editChain, hassign, Chain.results, Chain.scopes, List.map_cons, hresults]
      rfl
  · have hresults := results_set_owner state.chain
    have hnames := state.chain.current.binds_bind name value
    rw [editChain, hassign]
    constructor
    · rfl
    · rfl
    · rfl
    · intro other hother
      rw [hnames, hother, Bool.or_true]
    · intro other hafter hbefore
      rw [hnames, hbefore, Bool.or_false, decide_eq_true_eq] at hafter
      rwa [hafter]
    · exact .refl _
    · exact hresults

theorem local_declare (function : Function) :
    Local state (state.editChain fun chain => chain.declare function) := by
  have hresults := results_set_owner state.chain
  constructor
  · rfl
  · rfl
  · rfl
  · exact fun name hname => hname
  · intro name hafter hbefore
    exact absurd (hbefore.symm.trans hafter) Bool.false_ne_true
  · exact .refl _
  · exact hresults

theorem confined_record (value : Value) :
    Confined state (state.editChain fun chain => chain.record value) :=
  ⟨rfl, rfl, state.chain.scopes_record value, value, state.chain.results_record value⟩

/-- The scopes behind a closed one. -/
theorem scopes_leave {first : Scope} {rest : List Scope}
    (h : SameScopes (first :: rest) state.chain.outer) :
    (state.editChain .leave).chain.scopes = state.chain.outer := by
  rw [editChain, Chain.leave]
  generalize state.chain.outer = outer at h
  cases h
  rfl

theorem results_leave {first : Scope} {rest : List Scope}
    (h : SameScopes (first :: rest) state.chain.outer) :
    (state.editChain .leave).chain.results = state.chain.results.tail := by
  rw [Chain.results, state.scopes_leave h]
  rfl

end State

/-- What is local to a block is confined around it. -/
theorem Local.leave_block {before after : State}
    (h : Local (before.editChain fun chain => chain.enter .block) after) :
    Confined before (after.editChain .leave) := by
  obtain ⟨value, hvalue⟩ := h.results
  refine ⟨h.constants, h.clock, ?_, value, ?_⟩
  · rw [after.scopes_leave h.outer]
    exact h.outer
  · rw [after.results_leave h.outer, hvalue]
    rfl

/-- What is local to a call is quiet around it. -/
theorem Local.leave_call {before start after : State} {parameters : List String}
    (hconstants : start.constants = before.constants) (hclock : start.clock = before.clock)
    (hkind : start.chain.current.kind = .call parameters)
    (houter : start.chain.outer = before.chain.scopes) (h : Local start after) :
    Quiet before (after.editChain .leave) := by
  obtain ⟨value, hvalue⟩ := h.results
  have hsame := h.outer
  rw [houter] at hsame
  have howner : start.chain.owner = 0 := by
    rw [Chain.owner, Chain.scopes, List.map_cons, hkind, houter]
    rfl
  refine ⟨h.constants.trans hconstants, h.clock.trans hclock, ?_, ?_⟩
  · rw [after.scopes_leave hsame]
    exact hsame
  · rw [after.results_leave hsame, hvalue, howner, Chain.results, Chain.scopes, List.map_cons,
      List.set_cons_zero, houter]
    rfl

end MessageTemplate
