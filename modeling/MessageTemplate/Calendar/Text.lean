import MessageTemplate.Calendar.Instant
import MessageTemplate.Decimal.Digits

/-!
# Instants as text

The form is `YYYY-MM-DDThh:mm:ss`, a fraction of the second, and the mark of
universal time. The fraction has as many groups of three digits as it needs. A
year with more or fewer than four digits is written with its sign.
-/

namespace MessageTemplate
namespace Calendar

def twoDigits (n : Nat) : List Char := Decimal.padded 2 n

def yearText (year : Int) : List Char :=
  if 0 ≤ year ∧ year ≤ 9999 then Decimal.padded 4 year.toNat
  else (if year < 0 then '-' else '+') :: Decimal.padded 4 year.natAbs

def Date.text (date : Date) : List Char :=
  yearText date.year ++ '-' :: twoDigits date.month ++ '-' :: twoDigits date.day

/-- Hours, minutes and seconds. -/
def TimeOfDay.clockText (time : TimeOfDay) : List Char :=
  twoDigits time.hour ++ ':' :: twoDigits time.minute ++ ':' :: twoDigits time.second

/-- The fraction of a second, with 0, 3, 6 or 9 digits. -/
def fractionText (nanosecond : Nat) : List Char :=
  if nanosecond = 0 then []
  else if nanosecond % 1000000 = 0 then '.' :: Decimal.padded 3 (nanosecond / 1000000)
  else if nanosecond % 1000 = 0 then '.' :: Decimal.padded 6 (nanosecond / 1000)
  else '.' :: Decimal.padded 9 nanosecond

/-- The two marks of universal time. -/
inductive ZoneMark
  | zero | letter
deriving Repr, DecidableEq

def ZoneMark.letters : ZoneMark → List Char
  | zero => ['+', '0', '0', ':', '0', '0']
  | letter => ['Z']

def Instant.text (instant : Instant) (mark : ZoneMark) : String :=
  String.ofList (instant.date.text ++ 'T' :: instant.time.clockText ++
    fractionText instant.time.nanosecond ++ mark.letters)

/-- An instant with all nine digits of its fraction. -/
def Instant.fullText (instant : Instant) : String :=
  String.ofList (instant.date.text ++ 'T' :: instant.time.clockText ++
    '.' :: Decimal.padded 9 instant.time.nanosecond ++ ZoneMark.letter.letters)

end Calendar
end MessageTemplate
