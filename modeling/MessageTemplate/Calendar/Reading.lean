import MessageTemplate.Calendar.Instant
import MessageTemplate.Decimal.Digits

/-!
# Reading instants

The text is read from left to right and the first fault counts. A date is
checked as soon as its digits are read, a time only when its fraction has been
read too, and the offset at the very end.
-/

namespace MessageTemplate
namespace Calendar

/-- Why a text is not an instant. -/
inductive TimestampFault
  | tooShort | invalid | outOfRange | trailing
deriving Repr, DecidableEq

namespace TimestampFault

def message : TimestampFault → String
  | tooShort => "premature end of input"
  | invalid => "input contains invalid characters"
  | outOfRange => "input is out of range"
  | trailing => "trailing input"

end TimestampFault

abbrev TimestampReader := StateT (List Char) (Except TimestampFault)

namespace TimestampReader

/-- Take one character, which `p` must admit. -/
def charWhere (p : Char → Bool) : TimestampReader Char := do
  match ← get with
  | [] => throw .tooShort
  | c :: rest =>
    if p c then
      set rest
      return c
    else throw .invalid

def exactly (c : Char) : TimestampReader Unit := do
  discard (charWhere (· == c))

def digit : TimestampReader Nat := do
  return Decimal.digitValue (← charWhere Char.isDigit)

/-- A number with the given count of digits, behind the number read so far. -/
def digitsFrom (value : Nat) : Nat → TimestampReader Nat
  | 0 => return value
  | count + 1 => do digitsFrom (10 * value + (← digit)) count

def digits (count : Nat) : TimestampReader Nat := digitsFrom 0 count

def orOutOfRange {α : Type} : Option α → TimestampReader α
  | some value => return value
  | none => throw .outOfRange

def date : TimestampReader Date := do
  let year ← digits 4
  exactly '-'
  let month ← digits 2
  exactly '-'
  let day ← digits 2
  orOutOfRange (Date.of? year month day)

/-- Fraction digits as nanoseconds: nine of them count. -/
def nanoseconds (fraction : List Char) : Nat :=
  let counted := fraction.take 9
  Decimal.ofDigits counted * Nat.pow 10 (9 - counted.length)

/-- A fraction of a second, if a point is in front. -/
def fraction : TimestampReader Nat := do
  match ← get with
  | '.' :: rest =>
    set rest
    let first ← charWhere Char.isDigit
    let others := (← get).takeWhile Char.isDigit
    modify fun rest => rest.dropWhile Char.isDigit
    return nanoseconds (first :: others)
  | _ => return 0

def time : TimestampReader TimeOfDay := do
  let hour ← digits 2
  exactly ':'
  let minute ← digits 2
  exactly ':'
  let second ← digits 2
  let nanosecond ← fraction
  orOutOfRange (TimeOfDay.of? hour minute second nanosecond)

/-- Two characters, of which there must be as many bytes at least. -/
def pair : TimestampReader (Char × Char) := do
  match ← get with
  | [] => throw .tooShort
  | [c] => if c.utf8Size < 2 then throw .tooShort else throw .invalid
  | c :: d :: rest =>
    set rest
    return (c, d)

/-- The hours of an offset. -/
def offsetHours : TimestampReader Nat := do
  let (c, d) ← pair
  unless c.isDigit && d.isDigit do throw .invalid
  return Decimal.ofDigits [c, d]

/-- The minutes of an offset. -/
def offsetMinutes : TimestampReader Nat := do
  let (c, d) ← pair
  unless c.isDigit && d.isDigit do throw .invalid
  let minutes := Decimal.ofDigits [c, d]
  if minutes < 60 then return minutes else throw .outOfRange

def isMinus (c : Char) : Bool := c == '-' || c == '\u2212'

/-- Hours and minutes of an offset, and whether it is behind universal time. -/
def offset : TimestampReader (Bool × Nat × Nat) := do
  let c ← charWhere fun c => c == 'Z' || c == 'z' || c == '+' || isMinus c
  if c == 'Z' || c == 'z' then return (false, 0, 0)
  else
    let hours ← offsetHours
    exactly ':'
    return (isMinus c, hours, ← offsetMinutes)

def isDateTimeSeparator (c : Char) : Bool := c == 'T' || c == 't' || c == ' '

def endOfText : TimestampReader Unit := do
  unless (← get).isEmpty do throw .trailing

def instant : TimestampReader Instant := do
  let date ← date
  discard (charWhere isDateTimeSeparator)
  let time ← time
  let (behind, hours, minutes) ← offset
  endOfText
  unless hours < 24 do throw .outOfRange
  let ahead : Int := 60 * hours + minutes
  return .ofLocal date time (if behind then -ahead else ahead)

end TimestampReader

/-- The number of bytes of a date and a time without fraction. -/
def leastTimestampSize : Nat := 19

/-- The instant that a text denotes. -/
def Instant.ofText (text : String) : Except TimestampFault Instant :=
  if text.utf8ByteSize < leastTimestampSize then .error .tooShort
  else TimestampReader.instant.run' text.toList

end Calendar
end MessageTemplate
