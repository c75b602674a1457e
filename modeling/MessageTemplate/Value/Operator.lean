import MessageTemplate.Tree.Operator
import MessageTemplate.Value.Coercion
import MessageTemplate.Value.Text

/-!
# Operators on values

Arithmetic is on double-precision numbers and the operators on bits are on
integers; with a null operand both give null. Comparisons with null are false,
and the logical operators take null for false. A text on the left of `+` takes
the text of the right operand, whatever it is. The left operand is coerced
before the right one.
-/

namespace MessageTemplate
open Value

def UnaryOp.apply : UnaryOp → Value → Except RuntimeFault Value
  | .negate, .integer n => .ok (.integer (-n))
  | .negate, value => do return (← value.asNumber).elim .null fun x => .number (-x)
  | .not, value => do return (← value.asBool).elim .null fun b => .bool !b
  | .complement, value => do return (← value.asInteger).elim .null fun n => .integer (~~~n)

namespace BinaryOp

/-- Apply a function to two coerced operands. -/
def lift {α : Type} (coerce : Value → Coerced α) (absent : Value) (f : α → α → Value)
    (left right : Value) : Except RuntimeFault Value := do
  match ← coerce left, ← coerce right with
  | some a, some b => return f a b
  | _, _ => return absent

def arithmetic (f : Float → Float → Float) : Value → Value → Except RuntimeFault Value :=
  lift asNumber .null fun a b => .number (f a b)

def bitwise (f : Int64 → Int64 → Int64) : Value → Value → Except RuntimeFault Value :=
  lift asInteger .null fun a b => .integer (f a b)

def compare (f : Float → Float → Bool) : Value → Value → Except RuntimeFault Value :=
  lift asNumber (.bool false) fun a b => .bool (f a b)

/-- A number, which must be there. -/
def requireNumber (value : Value) : Except RuntimeFault Float := do
  match ← value.asNumber with
  | some x => return x
  | none => value.refuse .number

def raise (base exponent : Value) : Except RuntimeFault Value := do
  return .number (Float.pow (← requireNumber base) (← requireNumber exponent))

def logical (f : Bool → Bool → Bool) (left right : Value) : Except RuntimeFault Value := do
  return .bool (f (← left.isTrue) (← right.isTrue))

def apply : BinaryOp → Value → Value → Except RuntimeFault Value
  | .add, .string s, right => .ok (.string (s ++ right.text))
  | .add, left, right => arithmetic (· + ·) left right
  | .subtract, left, right => arithmetic (· - ·) left right
  | .multiply, left, right => arithmetic (· * ·) left right
  | .divide, left, right => arithmetic (· / ·) left right
  | .remainder, left, right => arithmetic Decimal.remainder left right
  | .power, left, right => raise left right
  | .bitAnd, left, right => bitwise (· &&& ·) left right
  | .bitOr, left, right => bitwise (· ||| ·) left right
  | .and, left, right => logical (· && ·) left right
  | .or, left, right => logical (· || ·) left right
  | .less, left, right => compare (fun a b => decide (a < b)) left right
  | .greater, left, right => compare (fun a b => decide (b < a)) left right

end BinaryOp
end MessageTemplate
