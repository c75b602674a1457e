import MessageTemplate.Source.Position

/-!
# Located failures

Every stage of the program reports a cause together with the place that it
concerns. A cause raised by a rule that does not know where it is applied has
no location yet; the nearest enclosing construct that has one supplies it, and
a location once set stays (`stamp_stamp`).
-/

namespace MessageTemplate

/-- A cause of failure of type `κ`, with its location once it is known. -/
structure Diagnostic (κ : Type) where
  cause : κ
  location : Option Location
deriving Repr, DecidableEq

namespace Diagnostic

variable {κ : Type}

/-- A failure whose place is not known yet. -/
def unplaced (cause : κ) : Diagnostic κ := ⟨cause, none⟩

/-- Supply a location to a failure that has none. -/
def stamp (failure : Diagnostic κ) (here : Location) : Diagnostic κ :=
  { failure with location := failure.location.or (some here) }

/-- The cause in words followed by the place; a failure without a place is internal. -/
def text [ToString κ] (failure : Diagnostic κ) : String :=
  toString failure.cause ++ " @ " ++ (failure.location.map Location.text).getD "<internal>"

@[simp] theorem cause_stamp (failure : Diagnostic κ) (here : Location) :
    (failure.stamp here).cause = failure.cause := rfl

@[simp] theorem stamp_unplaced (cause : κ) (here : Location) :
    (unplaced cause).stamp here = ⟨cause, some here⟩ := rfl

@[simp] theorem stamp_of_placed (cause : κ) (there here : Location) :
    (Diagnostic.mk cause (some there)).stamp here = ⟨cause, some there⟩ := rfl

theorem stamp_stamp (failure : Diagnostic κ) (inner outer : Location) :
    (failure.stamp inner).stamp outer = failure.stamp inner := by
  cases failure with
  | mk cause location => cases location <;> rfl

end Diagnostic

/-- The stages at which a template can be refused. -/
inductive Stage
  | parse | compile | runtime
deriving Repr, DecidableEq

namespace Stage

def name : Stage → String
  | parse => "parse"
  | compile => "compile"
  | runtime => "runtime"

/-- A failure of this stage as it is shown to the author of a template. -/
def report {κ : Type} [ToString κ] (stage : Stage) (failure : Diagnostic κ) : String :=
  stage.name ++ " error: " ++ failure.text

end Stage
end MessageTemplate
