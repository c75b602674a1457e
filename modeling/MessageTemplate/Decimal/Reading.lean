import MessageTemplate.Decimal.Digits

/-!
# Reading decimal numbers

A number is written as digits with an optional fraction, an optional power of
ten behind `e`, and an optional minus sign. It is read as the nearest
double-precision number; one that is too large is infinite.
-/

namespace MessageTemplate
namespace Decimal

/-- The double-precision number nearest to `significand · 10 ^ exponent`. -/
def ofScientific (significand : Nat) (exponent : Int) : Float :=
  Float.ofScientific significand (exponent < 0) exponent.natAbs

/-- An optional sign in front of digits. -/
def signedOfDigits? : List Char → Option Int
  | '-' :: text => (natOfDigits? text).map fun n => -Int.ofNat n
  | '+' :: text => (natOfDigits? text).map Int.ofNat
  | text => (natOfDigits? text).map Int.ofNat

/-- Digits with an optional fraction, and the number of places of the fraction. -/
def significand? (text : List Char) : Option (Nat × Nat) :=
  let whole := text.takeWhile Char.isDigit
  if whole = [] then none
  else
    match text.dropWhile Char.isDigit with
    | [] => some (ofDigits whole, 0)
    | '.' :: fraction =>
      if fraction ≠ [] ∧ fraction.all Char.isDigit then
        some (ofDigits (whole ++ fraction), fraction.length)
      else none
    | _ => none

/-- A number without a sign. -/
def unsigned? (text : List Char) : Option Float := do
  let (significand, places) ← significand? (text.takeWhile (· != 'e'))
  let exponent ← match text.dropWhile (· != 'e') with
    | _ :: exponent => signedOfDigits? exponent
    | [] => some 0
  return ofScientific significand (exponent - places)

/-- The number written in `text`. -/
def ofText? (text : String) : Option Float :=
  match text with
  | "inf" => some (1 / 0)
  | "-inf" => some (-1 / 0)
  | "NaN" => some (0 / 0)
  | _ =>
    match text.toList with
    | '-' :: rest => (unsigned? rest).map fun x => -x
    | rest => unsigned? rest

end Decimal
end MessageTemplate
