import MessageTemplate.Decimal.Binary64
import MessageTemplate.Value.Fault

/-!
# Coercions

Operators and statements need values of certain kinds. Only numbers change
their kind, and only when nothing is lost; a text is never read as a number. The
null value coerces to nothing, and what uses the value decides what that means.
-/

namespace MessageTemplate
namespace Value

abbrev Coerced (α : Type) := Except RuntimeFault (Option α)

def refuse {α : Type} (value : Value) (target : Kind) : Except RuntimeFault α :=
  .error (.coercion value.kind target)

/-- The double-precision number nearest to the greatest integer. -/
def integerBound : Float := Float.ofInt Int64.maxValue.toInt

/-- The whole number that a double-precision number stands for, if its size is below the bound. -/
def wholeNumber? (x : Float) : Option Int64 :=
  if x.abs < integerBound then (Binary64.ofFloat x).toInt?.map Int64.ofInt else none

def asNumber : Value → Coerced Float
  | null => .ok none
  | number x => .ok (some x)
  | integer n => .ok (some (Float.ofInt n.toInt))
  | value => value.refuse .number

def asInteger : Value → Coerced Int64
  | null => .ok none
  | integer n => .ok (some n)
  | number x =>
    match wholeNumber? x with
    | some n => .ok (some n)
    | none => (number x).refuse .integer
  | value => value.refuse .integer

def asBool : Value → Coerced Bool
  | null => .ok none
  | bool b => .ok (some b)
  | value => value.refuse .bool

/-- A condition: null is false, and anything but a truth value is refused. -/
def isTrue (value : Value) : Except RuntimeFault Bool := do
  return (← value.asBool).getD false

/-- The instant that a value denotes: a text has to be a timestamp. -/
def asInstant : Value → Coerced Calendar.Instant
  | null => .ok none
  | instant t => .ok (some t)
  | string s =>
    match Calendar.Instant.ofText s with
    | .ok t => .ok (some t)
    | .error fault => .error (.timestamp s fault)
  | value => value.refuse .instant

end Value
end MessageTemplate
