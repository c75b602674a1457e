import MessageTemplate.Evaluation.Stmt

/-!
# Runs taken apart

A run hides what happens between its first state and its last one. Here it is
taken apart into activities, each of which evaluates one expression, runs one
statement, writes one part or field, does one call, or runs a whole program. The
script of an activity says step by step what the activity does on its own and
where it waits for another one.
-/

namespace MessageTemplate

/-- What is done in one node of a tree, in one call, or at the top. The allowances are those of the
evaluator. -/
inductive Activity
  | term (allowance : Nat) (e : Term)
  | stmt (allowance rounds : Nat) (s : Code)
  | part (allowance : Nat) (p : EmbedPart Term Location)
  | field (allowance : Nat) (spec : FieldSpec Term Location)
  | call (allowance : Nat) (function : Function) (arguments : List Value)
      (enough : function.parameters.length ≤ arguments.length)
  | program (allowance : Nat) (code : List Code)

/-- What an activity gives to the one that waits for it. -/
abbrev Activity.Answer : Activity → Type
  | term _ _ | call _ _ _ _ => Value
  | stmt _ _ _ | part _ _ | program _ _ => Unit
  | field _ _ => Field

/-- The changes of the state. -/
inductive Effect
  | assign (name : String) (value : Value)
  | declare (function : Function)
  | record (value : Value)
  | edit (change : Document → Document)

namespace Effect

def apply : Effect → State → State
  | assign name value, state => state.editChain fun chain => chain.assign name value
  | declare function, state => state.editChain fun chain => chain.declare function
  | record value, state => state.editChain fun chain => chain.record value
  | edit change, state => state.editDocument change

end Effect

/-- The steps of an activity on its own. It looks at the state, changes it, and waits for others. -/
inductive Script (α : Type)
  | done (value : α)
  | fail (fault : RuntimeFault)
  | exhaust
  | look (next : State → Script α)
  | act (effect : Effect) (next : Script α)
  | start (activity : Activity) (next : activity.Answer → Script α)

/-- The run that the evaluator makes of an activity. -/
def Activity.run : (activity : Activity) → Eval activity.Answer
  | .term allowance e => Eval.expression allowance e
  | .stmt allowance rounds s => Eval.stmt (Eval.callWithin allowance) rounds s
  | .part allowance p => Eval.embedPart (Eval.callWithin allowance) p
  | .field allowance spec => Eval.field (Eval.callWithin allowance) spec
  | .call allowance function arguments _ => Eval.callWithin (allowance + 1) function arguments
  | .program allowance code => Eval.program allowance code

namespace Script

variable {α β : Type}

def bind : Script α → (α → Script β) → Script β
  | done value, next => next value
  | fail fault, _ => fail fault
  | exhaust, _ => exhaust
  | look rest, next => look fun state => (rest state).bind next
  | act effect rest, next => act effect (rest.bind next)
  | start activity rest, next => start activity fun value => (rest value).bind next

instance : Monad Script where
  pure := done
  bind := bind

/-- The run of a script. -/
def run : Script α → Eval α
  | done value => pure value
  | fail fault => Eval.raise fault
  | exhaust => throw .exhausted
  | look next => do (next (← get)).run
  | act effect next => do
    modify effect.apply
    next.run
  | start activity next => do (next (← activity.run)).run

/-! ## Short scripts -/

def state : Script State := look done

def perform (effect : Effect) : Script Unit := act effect (done ())

def evaluate (allowance : Nat) (e : Term) : Script Value := start (.term allowance e) done

def execute (allowance rounds : Nat) (s : Code) : Script Unit :=
  start (.stmt allowance rounds s) done

def write (allowance : Nat) (p : EmbedPart Term Location) : Script Unit :=
  start (.part allowance p) done

def describe (allowance : Nat) (spec : FieldSpec Term Location) : Script Field :=
  start (.field allowance spec) done

def invoke (allowance : Nat) (function : Function) (arguments : List Value)
    (enough : function.parameters.length ≤ arguments.length) : Script Value :=
  start (.call allowance function arguments enough) done

def ofExcept : Except RuntimeFault α → Script α
  | .ok value => done value
  | .error fault => fail fault

def ofOption (fault : RuntimeFault) : Option α → Script α
  | some value => done value
  | none => fail fault

/-! ## Runs of scripts -/

@[simp] theorem run_pure (value : α) : (pure value : Script α).run = pure value := rfl

@[simp] theorem run_fail (fault : RuntimeFault) : (fail fault : Script α).run = Eval.raise fault :=
  rfl

@[simp] theorem run_bind (script : Script α) (next : α → Script β) :
    (script >>= next).run = script.run >>= fun value => (next value).run := by
  change (script.bind next).run = _
  induction script with
  | done value => rfl
  | fail fault => rfl
  | exhaust => rfl
  | look rest ih => simp [bind, run, ih]
  | act effect rest ih => simp [bind, run, ih]
  | start activity rest ih => simp [bind, run, ih]

@[simp] theorem run_map (f : α → β) (script : Script α) :
    (f <$> script).run = f <$> script.run := by
  change (script >>= fun value => pure (f value)).run = _
  simp

@[simp] theorem run_discard (script : Script α) : (discard script).run = discard script.run :=
  run_map (Function.const α PUnit.unit) script

@[simp] theorem run_state : state.run = get := rfl

@[simp] theorem run_evaluate (allowance : Nat) (e : Term) :
    (evaluate allowance e).run = Eval.term (Eval.callWithin allowance) e := bind_pure _

@[simp] theorem run_execute (allowance rounds : Nat) (s : Code) :
    (execute allowance rounds s).run = Eval.stmt (Eval.callWithin allowance) rounds s := bind_pure _

@[simp] theorem run_write (allowance : Nat) (p : EmbedPart Term Location) :
    (write allowance p).run = Eval.embedPart (Eval.callWithin allowance) p := bind_pure _

@[simp] theorem run_describe (allowance : Nat) (spec : FieldSpec Term Location) :
    (describe allowance spec).run = Eval.field (Eval.callWithin allowance) spec := bind_pure _

@[simp] theorem run_invoke (allowance : Nat) (function : Function) (arguments : List Value)
    (enough : function.parameters.length ≤ arguments.length) :
    (invoke allowance function arguments enough).run =
      Eval.callWithin (allowance + 1) function arguments := bind_pure _

@[simp] theorem run_ofExcept (result : Except RuntimeFault α) :
    (ofExcept result).run = Eval.ofExcept result := by
  cases result <;> rfl

theorem run_forM (values : List α) {next : α → Script PUnit} {run : α → Eval PUnit}
    (h : ∀ value, (next value).run = run value) : (values.forM next).run = values.forM run := by
  induction values with
  | nil => rfl
  | cons value values ih =>
    change (next value >>= fun _ => values.forM next).run = run value >>= fun _ => values.forM run
    rw [run_bind, h, ih]

end Script
end MessageTemplate
