/-!
# Decimal digits

Natural numbers as strings of the characters `0` to `9`. Writing gives no
leading zeros unless a width is asked for; reading takes any number of them.
-/

namespace MessageTemplate
namespace Decimal

/-- The number that a digit character stands for. -/
def digitValue (digit : Char) : Nat := digit.toNat - '0'.toNat

/-- The number written with the given digits; no digits at all stand for zero. -/
def ofDigits (digits : List Char) : Nat :=
  digits.foldl (fun value digit => 10 * value + digitValue digit) 0

/-- The digits of a number, without leading zeros. -/
def digits (n : Nat) : List Char := Nat.toDigits 10 n

/-- The digits of a number, with zeros in front up to the given width. -/
def padded (width n : Nat) : List Char :=
  List.replicate (width - (digits n).length) '0' ++ digits n

/-- An integer in digits, with a minus sign if it is negative. -/
def intDigits (n : Int) : List Char :=
  if n < 0 then '-' :: digits n.natAbs else digits n.natAbs

/-- A non-empty string of digits as a number. -/
def natOfDigits? (text : List Char) : Option Nat :=
  if text ≠ [] ∧ text.all Char.isDigit then some (ofDigits text) else none

theorem ofDigits_append (front back : List Char) :
    ofDigits (front ++ back) = back.foldl (fun value digit => 10 * value + digitValue digit)
      (ofDigits front) := by
  simp [ofDigits]

end Decimal
end MessageTemplate
