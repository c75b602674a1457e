import MessageTemplate.Decimal.Binary64
import MessageTemplate.Decimal.Digits

/-!
# The shortest decimal of a double-precision number

Among the decimals that are nearer to a number than to its neighbours, the one
with the fewest digits is its text. Of several with as few digits the nearest is
taken, and of two equally near ones the larger.

The number, and the ends of the interval of decimals that read back as it, are
whole multiples of one power of ten. All comparisons are between these whole
numbers.
-/

namespace MessageTemplate
namespace Decimal

/-- A positive number and the interval around it, all in units of `10 ^ -places`. -/
structure Interval where
  value : Nat
  low : Nat
  high : Nat
  /-- Whether the ends belong to the interval. -/
  closed : Bool
  places : Nat
deriving Repr, DecidableEq

namespace Interval

/-- The decimals that round to `mantissa · 2 ^ exponent`. The lower neighbour of a power of two is
nearer than the upper one, except at the least exponent; a tie rounds to the even mantissa. -/
def around (mantissa : Nat) (exponent : Int) : Interval :=
  let quarter := exponent - 2
  let unit := if 0 ≤ quarter then Nat.pow 2 quarter.toNat else Nat.pow 5 (-quarter).toNat
  let below :=
    if mantissa = Binary64.hiddenBit ∧ exponent ≠ Binary64.leastExponent then 1 else 2
  { value := 4 * mantissa * unit
    low := (4 * mantissa - below) * unit
    high := (4 * mantissa + 2) * unit
    closed := mantissa % 2 = 0
    places := (-quarter).toNat }

def holds (interval : Interval) (n : Nat) : Bool :=
  if interval.closed then interval.low ≤ n && n ≤ interval.high
  else interval.low < n && n < interval.high

/-- The multiple of `spacing` that is nearest to the value and within the interval. Only the two
multiples next to the value need to be looked at. -/
def pick? (interval : Interval) (spacing : Nat) : Option Nat :=
  let lower := interval.value / spacing
  let upper := lower + 1
  let down := interval.value - lower * spacing
  let up := upper * spacing - interval.value
  match interval.holds (lower * spacing), interval.holds (upper * spacing) with
  | true, true => some (if down < up then lower else upper)
  | true, false => some lower
  | false, true => some upper
  | false, false => none

/-- No number needs more digits. -/
def mostDigits : Nat := 17

/-- The significand and the number of places dropped: the coarsest grid of powers of ten that has a
point in the interval. -/
def shortest (interval : Interval) : Nat × Nat :=
  let size := (digits interval.value).length
  ((List.range mostDigits).findSome? fun fewer =>
    let dropped := size - (fewer + 1)
    (interval.pick? (Nat.pow 10 dropped)).map fun significand => (significand, dropped)).getD
    (interval.value, 0)

end Interval

/-- The number `significand · 10 ^ exponent` in positional notation, without superfluous zeros. -/
def positional (significand : Nat) (exponent : Int) : List Char :=
  if 0 ≤ exponent then digits significand ++ List.replicate exponent.toNat '0'
  else
    let places := (-exponent).toNat
    let all := padded (places + 1) significand
    let whole := all.take (all.length - places)
    let fraction := (all.drop (all.length - places)).reverse.dropWhile (· == '0')
    if fraction = [] then whole else whole ++ '.' :: fraction.reverse

/-- The text of a number: the shortest decimal that reads back, never with an exponent. -/
def text (x : Float) : String :=
  match Binary64.ofFloat x with
  | .nan => "NaN"
  | .infinite negative => if negative then "-inf" else "inf"
  | .finite negative mantissa exponent =>
    let size :=
      if mantissa = 0 then ['0']
      else
        let interval := Interval.around mantissa exponent
        let (significand, dropped) := interval.shortest
        positional significand (Int.ofNat dropped - Int.ofNat interval.places)
    String.ofList (if negative then '-' :: size else size)

end Decimal
end MessageTemplate
