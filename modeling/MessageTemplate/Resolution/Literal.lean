import MessageTemplate.Decimal.Reading
import MessageTemplate.Tree.Expr
import MessageTemplate.Value.Fault

/-!
# The values of literals

A string literal stands for the characters between its quotes, backslashes
included. A marked literal, after `#` or `0x`, is an integer in decimal digits
that fits into 32 bits with a sign.
-/

namespace MessageTemplate

/-- Why a template that was read cannot be made ready to run. -/
inductive CompileFault
  | invalidNumber (raw : String)
  | invalidHex (raw : String)
  /-- A function is declared with the name of one that is always there. -/
  | reboundFunction (name : String)
  /-- The value of a constant cannot be computed. -/
  | constant (fault : RuntimeFault)
deriving Repr, DecidableEq

namespace CompileFault

def message : CompileFault → String
  | invalidNumber raw => s!"invalid number: {raw}"
  | invalidHex raw => s!"invalid hex number: {raw}"
  | reboundFunction name => s!"cannot rebind system function '{name}'"
  | constant fault => fault.message

instance : ToString CompileFault := ⟨message⟩

end CompileFault

abbrev CompileError := Diagnostic CompileFault

namespace Literal

/-- A text without its first and its last character. -/
def unquote (raw : String) : String := String.ofList raw.toList.tail.dropLast

def isMark (c : Char) : Bool := c == '#' || c == 'x'

/-- Marked integers stay below this. -/
def markedLimit : Nat := Nat.pow 2 31

/-- The integer of a marked literal: at most one character stands in front of the mark. -/
def markedInteger? (raw : String) : Option Int64 := do
  let front := raw.toList.takeWhile fun c => !isMark c
  match raw.toList.dropWhile fun c => !isMark c with
  | [] => none
  | _ :: written =>
    let n ← Decimal.natOfDigits? written
    if front.length ≤ 1 ∧ n < markedLimit then some (Int64.ofNat n) else none

def value : Literal → Except CompileFault Value
  | string raw => .ok (.string (unquote raw))
  | number raw =>
    match Decimal.ofText? raw with
    | some x => .ok (.number x)
    | none => .error (.invalidNumber raw)
  | bool b => .ok (.bool b)
  | hex raw =>
    match markedInteger? raw with
    | some n => .ok (.integer n)
    | none => .error (.invalidHex raw)

end Literal
end MessageTemplate
