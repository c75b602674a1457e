import MessageTemplate.Proofs.Evaluation.Hiding
import MessageTemplate.Proofs.Evaluation.Regrouping
import MessageTemplate.Proofs.Scope.Splitting

/-!
# Loops with a condition alone

A loop with clauses, and one that tests its condition late, run in one scope of
their own. Written as a loop with a condition alone, inside a conditional, they
run in two. No run can tell whether a block is divided in two, so both ways to
write a loop do the same.
-/

namespace MessageTemplate

namespace Stmt

/-- Statements in a conditional that is always taken. -/
def guarded (here : Location) (body : List Code) : Code :=
  .branch here (.literal here (.bool true)) (.block here body) none

/-- A loop with clauses as one with a condition alone. Without a condition nothing is repeated. -/
def forAsWhile (here : Location) (init : Option Code) (check : Option Term) (step : Option Code)
    (body : Code) : Code :=
  let loop (check : Term) : Code := .whileLoop here check (.block here (body :: step.toList))
  guarded here (init.toList ++ (check.map loop).toList)

/-- A loop that tests late as one that tests early, behind a first run of the body. -/
def doAsWhile (here : Location) (body : Code) (check : Term) : Code :=
  guarded here [body, .whileLoop here check body]

end Stmt

/-! ## Blocks inside blocks -/

/-- A block that has been opened binds nothing that is bound further out. -/
theorem Local.exists_around {before after : State}
    (h : Local (before.editChain fun chain => chain.enter .block) after) :
    ∃ around : Chain, after.chain = around.inside after.chain.current ∧
      after.chain.current.kind = .block ∧ around.IsFreeOf after.chain.current := by
  obtain ⟨⟨current, outer⟩, constants, clock, document⟩ := after
  have hsame := h.outer
  cases outer with
  | nil => cases hsame
  | cons next rest =>
    refine ⟨⟨next, rest⟩, rfl, h.kind, fun name hname => ?_⟩
    exact hsame.forall_binds (h.fresh name hname rfl)

theorem Chain.Splits.leave_eq {whole parts : Chain} (h : Splits whole parts) :
    whole.leave = parts.leave.leave := by
  cases h with
  | intro => rfl

namespace Eval

open Run (EndAlike)

variable {first rest : Eval Unit}

/-- A run in a block does the same in a block of its own inside, once both are closed. -/
theorem endAlike_inScope (hrest : Ignores Chain.Splits rest) {state : State} {around : Chain}
    (hchain : state.chain = around.inside state.chain.current)
    (hkind : state.chain.current.kind = .block) (hfree : around.IsFreeOf state.chain.current) :
    EndAlike (fun one two => one.editChain .leave = two.editChain .leave) (rest state)
      (inScope .block rest state) := by
  have hsplits : Chain.Splits state.chain (state.chain.enter .block) := by
    rw [hchain]
    exact .intro (.fresh hkind) hfree
  have hends := hrest 0 state (state.editChain fun chain => chain.enter .block)
    ⟨.base hsplits, rfl, rfl, rfl⟩
  have hleave : ∀ {one two : State}, State.Around Chain.Splits 0 one two →
      one.editChain .leave = (two.editChain .leave).editChain .leave := by
    intro one two h
    obtain ⟨chain, constants, clock, document⟩ := one
    obtain ⟨⟨hparts⟩, rfl, rfl, rfl⟩ := h
    rw [State.editChain, hparts.leave_eq]
    rfl
  unfold inScope
  generalize rest state = one at hends
  generalize rest (state.editChain fun chain => chain.enter .block) = two at hends
  cases hends with
  | ok value h => exact .ok value (hleave h)
  | error stop h => exact .error stop (hleave h)

/-- Runs in a scope do the same if they end alike but for what closing the scope removes. -/
theorem inScope_eq_of_endAlike {kind : ScopeKind} {run other : Eval Unit} {state : State}
    (h : EndAlike (fun one two => one.editChain .leave = two.editChain .leave)
      (run (state.editChain fun chain => chain.enter kind))
      (other (state.editChain fun chain => chain.enter kind))) :
    inScope kind run state = inScope kind other state := by
  unfold inScope
  generalize run (state.editChain fun chain => chain.enter kind) = one at h
  generalize other (state.editChain fun chain => chain.enter kind) = two at h
  cases h with
  | ok value hleave => exact congrArg (EStateM.Result.ok value) hleave
  | error stop hleave => exact congrArg (EStateM.Result.error stop) hleave

/-- What follows in a block can be put into a block of its own. -/
theorem inScope_inScope (hfirst : Keeps Local first) (hrest : Ignores Chain.Splits rest) :
    inScope .block (first >>= fun _ => rest) =
      inScope .block (first >>= fun _ => inScope .block rest) := by
  funext state
  cases hrun : first (state.editChain fun chain => chain.enter .block) with
  | error stop mid =>
    rw [inScope_of_error (Run.bind_of_error hrun), inScope_of_error (Run.bind_of_error hrun)]
  | ok value mid =>
    obtain ⟨around, hchain, hkind, hfree⟩ := (hfirst.of_ok hrun).exists_around
    apply inScope_eq_of_endAlike
    rw [Run.bind_of_ok hrun, Run.bind_of_ok hrun]
    exact endAlike_inScope hrest hchain hkind hfree

theorem stampStop_stampStop (here : Location) (stop : Stop RuntimeError) :
    stampStop here (stampStop here stop) = stampStop here stop := by
  cases stop with
  | failed error => exact congrArg Stop.failed (error.stamp_stamp here here)
  | exhausted => rfl

/-- Errors take a place once. -/
theorem located_located (here : Location) (first rest : Eval Unit) :
    located here (inScope .block (first >>= fun _ => located here rest)) =
      located here (inScope .block (first >>= fun _ => rest)) := by
  funext state
  cases hfirst : first (state.editChain fun chain => chain.enter .block) with
  | error stop mid =>
    rw [located_of_error (inScope_of_error (Run.bind_of_error hfirst)),
      located_of_error (inScope_of_error (Run.bind_of_error hfirst))]
  | ok value mid =>
    cases hrest : rest mid with
    | ok value after =>
      rw [located_of_ok (inScope_of_ok ((Run.bind_of_ok hfirst).trans (located_of_ok hrest))),
        located_of_ok (inScope_of_ok ((Run.bind_of_ok hfirst).trans hrest))]
    | error stop after =>
      rw [located_of_error
          (inScope_of_error ((Run.bind_of_ok hfirst).trans (located_of_error hrest))),
        located_of_error (inScope_of_error ((Run.bind_of_ok hfirst).trans hrest)),
        stampStop_stampStop]

/-! ## Loops -/

theorem stmt_guarded (call : Caller) (rounds : Nat) (here : Location) (body : List Code) :
    stmt call rounds (.guarded here body) =
      located here (inScope .block (stmts call rounds body)) := by
  rw [Stmt.guarded, stmt, stmt_block]
  rfl

/-- A loop behind other statements may run in their block. -/
theorem stmt_guarded_loop (allowance rounds : Nat) (here : Location) (before : List Code)
    (check : Term) (body : Code) :
    stmt (callWithin allowance) rounds (.guarded here (before ++ [.whileLoop here check body])) =
      located here (inScope .block (stmts (callWithin allowance) rounds before >>= fun _ =>
        repeatWhile (condition (callWithin allowance) check)
          (stmt (callWithin allowance) rounds body) rounds)) := by
  have hbefore : Keeps Local (stmts (callWithin allowance) rounds before) :=
    allowsActs_local.stmts fun s _ => stmt_local (callWithin_quiet allowance) rounds s
  have hcall := callWithin_ignores Chain.Splits.isHidden allowance
  have hloop : Ignores Chain.Splits (repeatWhile (condition (callWithin allowance) check)
      (stmt (callWithin allowance) rounds body) rounds) :=
    isCompositional_ignores.repeatWhile
      (isCompositional_ignores.condition (term_ignores Chain.Splits.isHidden hcall check))
      (stmt_ignores Chain.Splits.isHidden hcall rounds body) rounds
  rw [stmt_guarded, stmts_append, stmts_singleton, stmt, located_located,
    ← inScope_inScope hbefore hloop]

/-- A loop with clauses does the same as a loop with a condition alone, and so does one that tests
late: in every state and with every allowance there is the same state afterwards, and the same error
if there is one. -/
theorem loops_as_while (allowance rounds : Nat) (here : Location) :
    (∀ (init : Option Code) (check : Option Term) (step : Option Code) (body : Code),
      stmt (callWithin allowance) rounds (.forLoop here init check step body) =
        stmt (callWithin allowance) rounds (.forAsWhile here init check step body)) ∧
      ∀ (body : Code) (check : Term),
        stmt (callWithin allowance) rounds (.doWhile here body check) =
          stmt (callWithin allowance) rounds (.doAsWhile here body check) := by
  constructor
  · intro init check step body
    cases check with
    | none =>
      rw [Stmt.forAsWhile, stmt_guarded, stmts_append, ← stmt?_eq_stmts, stmt]
      rfl
    | some check =>
      have hbody : stmt (callWithin allowance) rounds (.block here (body :: step.toList)) = (do
          stmt (callWithin allowance) rounds body
          stmt? (callWithin allowance) rounds step) := by
        rw [stmt_block, stmts, stmt?_eq_stmts]
      rw [Stmt.forAsWhile, Option.map_some, Option.toList_some, stmt_guarded_loop, hbody,
        ← stmt?_eq_stmts, stmt]
  · intro body check
    have hguarded := stmt_guarded_loop allowance rounds here [body] check body
    rw [stmts_singleton] at hguarded
    rw [Stmt.doAsWhile, stmt]
    exact hguarded.symm

end Eval
end MessageTemplate
