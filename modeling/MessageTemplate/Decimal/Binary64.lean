/-!
# The exact content of a double-precision number

A finite double-precision number is a whole number times a power of two.
`Binary64` holds these parts exactly, so that questions such as "is it whole" or
"what remains after division" are answered without rounding.
-/

namespace MessageTemplate

/-- What a double-precision number stands for: `finite` numbers are `± mantissa · 2 ^ exponent`. -/
inductive Binary64
  | nan
  | infinite (negative : Bool)
  | finite (negative : Bool) (mantissa : Nat) (exponent : Int)
deriving Repr, DecidableEq

namespace Binary64

/-- The least exponent of a finite number. -/
def leastExponent : Int := -1074

/-- The mantissas of normal numbers reach from here to twice this. -/
def hiddenBit : Nat := Nat.pow 2 52

/-- Decode a bit pattern: sign, biased exponent and fraction. -/
def ofBits (bits : Nat) : Binary64 :=
  let negative := Nat.pow 2 63 ≤ bits
  let biased : Nat := bits / hiddenBit % Nat.pow 2 11
  let fraction : Nat := bits % hiddenBit
  if biased = Nat.pow 2 11 - 1 then
    if fraction = 0 then infinite negative else nan
  else if biased = 0 then finite negative fraction leastExponent
  else finite negative (hiddenBit + fraction) (leastExponent - 1 + biased)

def ofFloat (x : Float) : Binary64 := ofBits x.toBits.toNat

/-- The whole number that is meant, if it is one. -/
def toInt? : Binary64 → Option Int
  | finite negative mantissa exponent =>
    let sign : Int := if negative then -1 else 1
    if 0 ≤ exponent then some (sign * (mantissa * Int.pow 2 exponent.toNat))
    else if Nat.pow 2 (-exponent).toNat ∣ mantissa then
      some (sign * (mantissa / Int.pow 2 (-exponent).toNat))
    else none
  | _ => none

end Binary64

namespace Decimal

/-- The double-precision number nearest to `mantissa · 2 ^ exponent`, with the given sign; a number
with a negative power of two is a decimal fraction, because `1/2` is `5/10`. -/
def ofScaled (negative : Bool) (mantissa : Nat) (exponent : Int) : Float :=
  let size :=
    if 0 ≤ exponent then Float.ofNat (mantissa * Nat.pow 2 exponent.toNat)
    else Float.ofScientific (mantissa * Nat.pow 5 (-exponent).toNat) true (-exponent).toNat
  if negative then -size else size

/-- What remains of `x` after taking away `y` as often as it fits, towards zero: the sign is that of
`x`, and the result is exact. -/
def remainder (x y : Float) : Float :=
  match Binary64.ofFloat x, Binary64.ofFloat y with
  | .finite negative m e, .finite _ n f =>
    if n = 0 then 0 / 0
    else
      let low := min e f
      ofScaled negative (m * Nat.pow 2 (e - low).toNat % (n * Nat.pow 2 (f - low).toNat)) low
  | .finite _ _ _, .infinite _ => x
  | _, _ => 0 / 0

end Decimal
end MessageTemplate
