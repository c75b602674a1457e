import MessageTemplate.Proofs.Evaluation.Hiding
import MessageTemplate.Proofs.Evaluation.Regrouping
import MessageTemplate.Proofs.Evaluation.Results

/-!
# Returning

To return is to record a result, and nothing else. The answer of a call is the
last result that its own body records, and a body that does not return but only
evaluates what it would return leaves everything but the result as it was.
-/

namespace MessageTemplate

namespace Stmt

variable {E P : Type}

mutual

/-- The same statement without results: what would be returned is evaluated only. Functions that
are declared inside are left as they are. -/
def dropResults : Stmt E P → Stmt E P
  | .result place value => .expr place value
  | .block place body => .block place (dropResultsOfAll body)
  | .branch place condition yes no =>
    .branch place condition yes.dropResults (dropResultsOf? no)
  | .forLoop place init check step body =>
    .forLoop place (dropResultsOf? init) check (dropResultsOf? step) body.dropResults
  | .foreach place name iterable body => .foreach place name iterable body.dropResults
  | .whileLoop place condition body => .whileLoop place condition body.dropResults
  | .doWhile place body condition => .doWhile place body.dropResults condition
  | .empty place => .empty place
  | .assign place name value => .assign place name value
  | .expr place value => .expr place value
  | .function place name namePlace parameters body =>
    .function place name namePlace parameters body
  | .text place value => .text place value
  | .attachment place value => .attachment place value
  | .embed place parts => .embed place parts

def dropResultsOfAll : List (Stmt E P) → List (Stmt E P)
  | [] => []
  | first :: rest => first.dropResults :: dropResultsOfAll rest

def dropResultsOf? : Option (Stmt E P) → Option (Stmt E P)
  | none => none
  | some s => some s.dropResults

end

end Stmt

/-- The states differ at most in the results that their scopes keep. -/
def State.AreEqualButResults (first second : State) : Prop :=
  first.editChain .forgetResults = second.editChain .forgetResults

namespace State.AreEqualButResults

variable {first second : State}

theorem around (h : AreEqualButResults first second) :
    State.Around Chain.AreEqualButResults 0 first second := by
  obtain ⟨hchain, hconstants, hclock, hdocument⟩ := State.mk.inj h
  exact ⟨.base hchain, hconstants, hclock, hdocument⟩

theorem of_around (h : State.Around Chain.AreEqualButResults 0 first second) :
    AreEqualButResults first second := by
  obtain ⟨chain, constants, clock, document⟩ := first
  obtain ⟨⟨hchain⟩, rfl, rfl, rfl⟩ := h
  exact congrArg (fun chain => State.mk chain _ _ _) hchain

end State.AreEqualButResults

namespace Eval

open Run (EndAlike Alike Similar)

variable {α : Type}

/-! ## Bodies without results -/

theorem Ignores.alike {run : Eval α} (h : Ignores Chain.AreEqualButResults run) :
    Alike State.AreEqualButResults run :=
  fun first second hstates =>
    (h 0 first second hstates.around).mono fun _ _ => State.AreEqualButResults.of_around

theorem inScope_similar_butResults {run other : Eval Unit}
    (h : Similar State.AreEqualButResults run other) :
    Similar State.AreEqualButResults (inScope .block run) (inScope .block other) := by
  apply inScope_similar (S := State.AreEqualButResults) _ _ h
  · exact fun _ _ hstates =>
      congrArg (fun state : State => state.editChain fun chain => chain.enter .block) hstates
  · intro first second hstates
    have hleave := congrArg (fun state : State => state.editChain .leave) hstates
    simpa only [State.AreEqualButResults, State.editChain, Chain.leave_forgetResults] using hleave

/-- To record a value and to do nothing are the same but for the result. -/
theorem record_similar_pure (value : Value) :
    Similar State.AreEqualButResults (record value) (pure ()) := by
  intro first second hstates
  apply EndAlike.ok ()
  rw [State.AreEqualButResults, ← hstates]
  exact congrArg (fun chain => { first with chain := chain })
    (first.chain.record_forgetResults value)

section

variable {call : Caller} (hcall : ∀ f values, Ignores Chain.AreEqualButResults (call f values))
  (rounds : Nat)

include hcall

theorem stmt_dropResults (s : Code) : Similar State.AreEqualButResults (stmt call rounds s)
    (stmt call rounds s.dropResults) := by
  have hhidden := Chain.AreEqualButResults.isHidden
  have hterm := fun e => term_ignores hhidden hcall e
  have hcondition := fun e =>
    ((isCompositional_ignores (Q := Chain.AreEqualButResults)).condition (hterm e)).alike
  have hassign := fun name item => ((allowsActs_ignores hhidden).assign name item).alike
  have hblock : ∀ {run other : Eval Unit}, Similar State.AreEqualButResults run other →
      Similar State.AreEqualButResults (inScope .block run) (inScope .block other) :=
    inScope_similar_butResults
  have hsame : ∀ s : Code, Similar State.AreEqualButResults (stmt call rounds s)
      (stmt call rounds s) := fun s => (stmt_ignores hhidden hcall rounds s).alike
  induction s using Stmt.induct with
  | step s ih =>
    have hchild? : ∀ child? : Option Code, (∀ child ∈ child?, child ∈ s.children) →
        Similar State.AreEqualButResults (stmt? call rounds child?)
          (stmt? call rounds (Stmt.dropResultsOf? child?)) := by
      intro child? hmem
      cases child? with
      | none => exact Alike.pure _
      | some child => exact ih child (hmem child rfl)
    cases s with
    | result here value =>
      have hexpr : stmt call rounds (.expr here value) =
          located here (term call value >>= fun _ => pure ()) := by
        rw [stmt]
        change located here (Function.const Value () <$> term call value) = _
        rw [← bind_pure_comp]
      rw [Stmt.dropResults, hexpr, stmt]
      apply Similar.adaptExcept
      exact .bind (hterm value).alike record_similar_pure
    | block here body =>
      rw [Stmt.dropResults, stmt_block, stmt_block]
      rw [Stmt.children] at ih
      clear hchild?
      induction body with
      | nil => exact Alike.pure _
      | cons first rest ihrest =>
        rw [List.forall_mem_cons] at ih
        exact .bind ih.1 fun _ => ihrest ih.2
    | branch here test yes no =>
      rw [Stmt.dropResults]
      exact branch_similar hblock (hcondition test) (ih yes (by simp [Stmt.children]))
        (hchild? no fun child hmem => by simp_all [Stmt.children])
    | forLoop here init check step body =>
      rw [Stmt.dropResults]
      exact forLoop_similar hblock (fun test _ => hcondition test)
        (hchild? init fun child hmem => by simp_all [Stmt.children])
        (hchild? step fun child hmem => by simp_all [Stmt.children])
        (ih body (by simp [Stmt.children]))
    | foreach here name iterable body =>
      rw [Stmt.dropResults]
      exact foreach_similar hblock (hterm iterable).alike (hassign name)
        (ih body (by simp [Stmt.children]))
    | whileLoop here test body =>
      rw [Stmt.dropResults]
      exact whileLoop_similar hblock (hcondition test) (ih body (by simp [Stmt.children]))
    | doWhile here body test =>
      rw [Stmt.dropResults]
      exact doWhile_similar hblock (hcondition test) (ih body (by simp [Stmt.children]))
    | _ =>
      rw [Stmt.dropResults]
      exact hsame _

end

/-! ## Arguments -/

section

variable {run : Code → Eval Unit} {f : Function} {arguments : List Value}

theorem invoke_of_lt (h : arguments.length < f.parameters.length) (state : State) :
    invoke run f arguments state =
      .error (.failed (.unplaced (.notEnoughArguments f.parameters.length arguments.length)))
        state := by
  rw [invoke, if_pos h]
  rfl

theorem bindParameters_append (names : List String) (values extra : List Value)
    (h : names.length ≤ values.length) :
    bindParameters names (values ++ extra) = bindParameters names values := by
  induction names generalizing values with
  | nil => cases values <;> cases extra <;> rfl
  | cons name names ih =>
    cases values with
    | nil => contradiction
    | cons value values =>
      rw [List.cons_append, bindParameters, bindParameters, ih values (Nat.le_of_succ_le_succ h)]

theorem invoke_append (h : f.parameters.length ≤ arguments.length) (extra : List Value) :
    invoke run f (arguments ++ extra) = invoke run f arguments := by
  have hlonger : f.parameters.length ≤ (arguments ++ extra).length := by
    rw [List.length_append]
    omega
  rw [invoke, invoke, if_neg (Nat.not_lt.2 h), if_neg (Nat.not_lt.2 hlonger),
    bindParameters_append f.parameters arguments extra h]

end

/-! ## The answer of a call -/

theorem bound_current (names : List String) (values : List Value) (state : State) :
    (bound names values state).chain.current.kind = state.chain.current.kind ∧
      (bound names values state).chain.current.result = state.chain.current.result := by
  induction names generalizing values state with
  | nil => cases values <;> exact ⟨rfl, rfl⟩
  | cons name names ih =>
    cases values with
    | nil => exact ⟨rfl, rfl⟩
    | cons value values => exact ih values _

/-- Whatever is done before, the answer is the result in the scope in the end. -/
theorem recorded_of_ok {first : Eval Unit} {state last : State} {value : Value}
    (h : (first >>= fun _ => recorded) state = .ok value last) :
    value = last.chain.current.result := by
  cases hfirst : first state with
  | ok done mid =>
    rw [Run.bind_of_ok hfirst] at h
    obtain ⟨rfl, rfl⟩ := EStateM.Result.ok.inj h
    rfl
  | error stop mid =>
    rw [Run.bind_of_error hfirst] at h
    contradiction

theorem call_answer {allowance : Nat} {f : Function} {arguments : List Value}
    (enough : f.parameters.length ≤ arguments.length) {state after : State} {value : Value}
    (h : callWithin (allowance + 1) f arguments state = .ok value after) {values : List Value}
    (hvalues : (Activity.call allowance f arguments enough).Records state values) :
    value = values.getLast?.getD .null := by
  obtain ⟨answer, last, hcomes, hkept⟩ := Script.Records.kept hvalues
  obtain ⟨ending, hscript, -⟩ := Activity.script_of_run (.call allowance f arguments enough) h
  obtain ⟨rfl, rfl⟩ := EStateM.Result.ok.inj (hcomes.run_eq.symm.trans hscript)
  obtain ⟨hkind, hresult⟩ := bound_current f.parameters arguments
    (state.editChain fun chain => chain.enter (.call f.parameters))
  have hstart : ((Activity.call allowance f arguments enough).opened state).chain.kept = .null :=
    (Chain.kept_of_call hkind).trans hresult
  rw [Chain.kept_of_call (hcomes.local.kind.trans hkind), hstart] at hkept
  have hanswer : answer = last.chain.current.result := by
    rw [Activity.script, Activity.run_ofCall] at hscript
    exact recorded_of_ok hscript
  exact hanswer.trans hkept

/-- To return only records. The answer of a call is the last of the results that its own body
records, and null if there is none. A body that evaluates what it would return, instead of returning
it, does the same but for the result. With too few arguments nothing is done, and arguments beyond
the parameters are ignored. -/
theorem return_only_records (allowance : Nat) (f : Function) (arguments : List Value)
    (state : State) :
    (arguments.length < f.parameters.length →
      callWithin (allowance + 1) f arguments state =
        .error (.failed (.unplaced (.notEnoughArguments f.parameters.length arguments.length)))
          state) ∧
      (∀ enough : f.parameters.length ≤ arguments.length,
        (∀ extra, callWithin (allowance + 1) f (arguments ++ extra) state =
          callWithin (allowance + 1) f arguments state) ∧
        ∀ value after, callWithin (allowance + 1) f arguments state = .ok value after →
          (∃ values, (Activity.call allowance f arguments enough).Records state values) ∧
            ∀ values, (Activity.call allowance f arguments enough).Records state values →
              value = values.getLast?.getD .null) ∧
      ∀ (rounds : Nat) (s : Code),
        EndAlike State.AreEqualButResults (stmt (callWithin allowance) rounds s state)
          (stmt (callWithin allowance) rounds s.dropResults state) := by
  refine ⟨fun hfew => invoke_of_lt hfew state, fun enough => ⟨fun extra => ?_, ?_⟩, ?_⟩
  · exact congrFun (invoke_append enough extra) state
  · intro value after h
    exact ⟨Activity.exists_records (.call allowance f arguments enough) h,
      fun values hvalues => call_answer enough h hvalues⟩
  · intro rounds s
    have hcall := callWithin_ignores Chain.AreEqualButResults.isHidden allowance
    exact stmt_dropResults hcall rounds s state state rfl

/-- A function that returns its argument, and then something else in a block. -/
def returningTwice : Function :=
  ⟨"f", ["p"], .code (.block ⟨"t", .start⟩
    [.result ⟨"t", .start⟩ (.var ⟨"t", .start⟩ "p"),
      .branch ⟨"t", .start⟩ (.var ⟨"t", .start⟩ "p")
        (.result ⟨"t", .start⟩ (.literal ⟨"t", .start⟩ (.string "x"))) none]), none⟩

theorem return_only_records_returningTwice :
    (∃ after, callWithin 2 returningTwice [.bool true] (.initial .empty .newMonth) =
        .ok (.string "x") after) ∧
      (∃ values, (Activity.call 1 returningTwice [.bool true] (by decide)).Records
        (.initial .empty .newMonth) values ∧ Value.string "x" = values.getLast?.getD .null) ∧
      callWithin 2 returningTwice [.bool true, .null] (.initial .empty .newMonth) =
        callWithin 2 returningTwice [.bool true] (.initial .empty .newMonth) ∧
      callWithin 2 returningTwice [] (.initial .empty .newMonth) =
        .error (.failed (.unplaced (.notEnoughArguments 1 0))) (.initial .empty .newMonth) := by
  obtain ⟨after, hrun⟩ : ∃ after, callWithin 2 returningTwice [.bool true]
      (.initial .empty .newMonth) = .ok (.string "x") after := ⟨_, rfl⟩
  obtain ⟨-, henough, -⟩ := return_only_records 1 returningTwice [.bool true]
    (.initial .empty .newMonth)
  obtain ⟨hextra, hanswer⟩ := henough (by decide)
  obtain ⟨⟨values, hvalues⟩, hlast⟩ := hanswer _ _ hrun
  obtain ⟨hfew, -, -⟩ := return_only_records 1 returningTwice [] (.initial .empty .newMonth)
  exact ⟨⟨after, hrun⟩, ⟨values, hvalues, hlast values hvalues⟩, hextra [.null], hfew (by decide)⟩

end Eval
end MessageTemplate
