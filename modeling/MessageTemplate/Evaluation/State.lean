import MessageTemplate.Message.Document
import MessageTemplate.Scope.Chain
import MessageTemplate.Value.Fault

/-!
# The state of a run

A run changes the chain of scopes and the document. Constants are looked up
behind all variables. A run ends with a result, with an error, or because the
number of steps that it was allowed is used up; what was changed until then stays
changed.
-/

namespace MessageTemplate

structure State where
  chain : Chain
  constants : Table Value
  /-- What `now` answers. A run is given one instant, and every call of `now` in it answers with
  that one: no time passes during a run. -/
  clock : Calendar.Instant
  document : Document

namespace State

/-- The state in which a run begins. -/
def initial (constants : Table Value) (clock : Calendar.Instant) : State :=
  ⟨.root, constants, clock, .blank⟩

/-- The value of a variable or else of a constant. -/
def read? (state : State) (name : String) : Option Value :=
  (state.chain.lookup name).or (state.constants.get? name)

def function? (state : State) (name : String) : Option Function :=
  (state.chain.function? name).or (systemFunction? name)

def editChain (state : State) (edit : Chain → Chain) : State :=
  { state with chain := edit state.chain }

def editDocument (state : State) (edit : Document → Document) : State :=
  { state with document := edit state.document }

def setConstant (state : State) (name : String) (value : Value) : State :=
  { state with constants := state.constants.insert name value }

end State

/-- Why a run stops early. -/
inductive Stop (ε : Type)
  | failed (error : ε)
  | exhausted

/-- A run that may stop with an error of type `ε`. -/
abbrev Run (ε : Type) := EStateM (Stop ε) State

abbrev Eval := Run RuntimeError

namespace Eval

variable {α : Type}

/-- Fail for a reason whose place is not known here. -/
def raise (fault : RuntimeFault) : Eval α := throw (.failed (.unplaced fault))

def ofExcept : Except RuntimeFault α → Eval α
  | .ok value => pure value
  | .error fault => raise fault

/-- Give the errors of a run that have no place yet a place. -/
def stampStop (here : Location) : Stop RuntimeError → Stop RuntimeError
  | .failed error => .failed (error.stamp here)
  | .exhausted => .exhausted

/-- Run what stands at a place. -/
def located (here : Location) (run : Eval α) : Eval α := run.adaptExcept (stampStop here)

/-- Run inside a new scope, which is closed however the run ends. -/
def inScope (kind : ScopeKind) (run : Eval α) : Eval α := fun state =>
  match run (state.editChain fun chain => chain.enter kind) with
  | .ok value state => .ok value (state.editChain .leave)
  | .error stop state => .error stop (state.editChain .leave)

/-- Run with the outermost scope as the current one. -/
def atRoot (run : Eval α) : Eval α := fun state =>
  let restore (after : State) := after.editChain fun chain =>
    state.chain.withOutermost chain.outermost
  match run (state.editChain fun chain => ⟨chain.outermost, []⟩) with
  | .ok value after => .ok value (restore after)
  | .error stop after => .error stop (restore after)

def editDocument (edit : Document → Document) : Eval Unit :=
  modify fun state => state.editDocument edit

def editChain (edit : Chain → Chain) : Eval Unit := modify fun state => state.editChain edit

def read (name : String) : Eval Value := do
  match (← get).read? name with
  | some value => return value
  | none => raise (.undefinedVariable name)

def function (name : String) : Eval Function := do
  match (← get).function? name with
  | some function => return function
  | none => raise (.undefinedFunction name)

def assign (name : String) (value : Value) : Eval Unit :=
  editChain fun chain => chain.assign name value

def bind (name : String) (value : Value) : Eval Unit := editChain fun chain => chain.bind name value

def declare (function : Function) : Eval Unit := editChain fun chain => chain.declare function

def record (value : Value) : Eval Unit := editChain fun chain => chain.record value

/-- The result recorded in the current scope itself. -/
def recorded : Eval Value := do
  return (← get).chain.current.result

end Eval
end MessageTemplate
