import MessageTemplate.Decimal.Digits
import MessageTemplate.Json.Basic

/-!
# Reading JSON

Standard JSON with nothing in front or behind but blanks, and with a limit on
how deep arrays and objects nest. A fraction or a power of ten makes a number
double-precision: its digits are taken as long as they fit into 64 bits, and
the result is then scaled by a power of ten, so it can be off in the last place.
A number too large to be finite is no number.
-/

namespace MessageTemplate
namespace Json

/-- Takes characters off the front of a text, if it can. -/
abbrev Reader := StateT (List Char) Option

namespace Reader

def isBlank (c : Char) : Bool := c == ' ' || c == '\n' || c == '\t' || c == '\r'

def skipBlanks : Reader Unit := modify fun text => text.dropWhile isBlank

/-- Take the character in front. -/
def next : Reader Char := do
  match ← get with
  | [] => failure
  | c :: rest =>
    set rest
    return c

/-- Take the character `c` if it is in front. -/
def accept (c : Char) : Reader Bool := do
  match ← get with
  | d :: rest =>
    if c = d then
      set rest
      return true
    else return false
  | [] => return false

def require (c : Char) : Reader Unit := do
  unless (← accept c) do failure

def requireAll (text : List Char) : Reader Unit := text.forM require

/-- Take all digits in front. -/
def digits : Reader (List Char) := do
  let taken := (← get).takeWhile Char.isDigit
  modify fun text => text.dropWhile Char.isDigit
  return taken

/-! ## Strings -/

def hexValue? (c : Char) : Option Nat :=
  if c.isDigit then some (c.toNat - '0'.toNat)
  else if 'a' ≤ c ∧ c ≤ 'f' then some (c.toNat - 'a'.toNat + 10)
  else if 'A' ≤ c ∧ c ≤ 'F' then some (c.toNat - 'A'.toNat + 10)
  else none

def hexDigit : Reader Nat := do
  (hexValue? (← next) : Option Nat)

/-- Four hexadecimal digits. -/
def codeUnit : Reader Nat := do
  let a ← hexDigit
  let b ← hexDigit
  let c ← hexDigit
  let d ← hexDigit
  return ((a * 16 + b) * 16 + c) * 16 + d

def isHighSurrogate (unit : Nat) : Bool := 0xD800 ≤ unit && unit < 0xDC00

def isLowSurrogate (unit : Nat) : Bool := 0xDC00 ≤ unit && unit < 0xE000

/-- The character of an escape with code units. Surrogates come in pairs only. -/
def unicodeEscape : Reader Char := do
  let unit ← codeUnit
  if isHighSurrogate unit then
    require '\\'
    require 'u'
    let low ← codeUnit
    unless isLowSurrogate low do failure
    return Char.ofNat (0x10000 + (unit - 0xD800) * 0x400 + (low - 0xDC00))
  else if isLowSurrogate unit then failure
  else return Char.ofNat unit

/-- The character that a backslash and what follows stand for. -/
def escapeSequence : Reader Char := do
  match ← next with
  | '"' => return '"'
  | '\\' => return '\\'
  | '/' => return '/'
  | 'b' => return '\x08'
  | 'f' => return '\x0c'
  | 'n' => return '\n'
  | 'r' => return '\r'
  | 't' => return '\t'
  | 'u' => unicodeEscape
  | _ => failure

/-- The characters of a string up to its closing quote, in at most the given number of rounds. -/
def stringRest : Nat → Reader (List Char)
  | 0 => failure
  | rounds + 1 => do
    match ← next with
    | '"' => return []
    | '\\' =>
      let c ← escapeSequence
      return c :: (← stringRest rounds)
    | c =>
      if c.toNat < 0x20 then failure
      return c :: (← stringRest rounds)

/-- A rule that repeats, with a bound on its rounds that exceeds the number of characters. -/
def bounded {α : Type} (rule : Nat → Reader α) : Reader α := do
  rule ((← get).length + 1)

/-- What follows the opening quote of a string. -/
def string : Reader String := do
  return String.ofList (← bounded stringRest)

/-! ## Numbers -/

/-- Significands stay below this. -/
def significandLimit : Nat := Nat.pow 2 64

/-- Exponents as written stay below this. -/
def exponentLimit : Nat := Nat.pow 2 31

/-- Add digits to a number as long as it stays below the limit, and give the digits that are
left. -/
def takeBelow (limit value : Nat) : List Char → Nat × List Char
  | [] => (value, [])
  | digit :: rest =>
    let larger := 10 * value + Decimal.digitValue digit
    if larger < limit then takeBelow limit larger rest else (value, digit :: rest)

/-- The largest power of ten that a double-precision number scales by in one step. -/
def largestStep : Nat := 308

def powerOfTen (exponent : Nat) : Float := Float.ofScientific 1 false exponent

/-- Divide by a power of ten in steps; zero stays zero. -/
def divideByPower (x : Float) (places : Nat) : Float :=
  if places ≤ largestStep then x / powerOfTen places
  else if x == 0 then x
  else divideByPower (x / powerOfTen largestStep) (places - largestStep)
termination_by places
decreasing_by
  have : 0 < largestStep := by decide
  omega

/-- Scale by a power of ten, unless the result is too large. -/
def scale? (x : Float) (exponent : Int) : Option Float :=
  if exponent < 0 then some (divideByPower x exponent.natAbs)
  else if exponent.natAbs ≤ largestStep then
    let scaled := x * powerOfTen exponent.natAbs
    if scaled.isInf then none else some scaled
  else if x == 0 then some x
  else none

/-- A written exponent: its value, or its sign if it is beyond all limits. -/
inductive Exponent
  | within (value : Int)
  | beyond (negative : Bool)

/-- What follows the `e` of a number. -/
def exponent : Reader Exponent := do
  let negative ← if ← accept '-' then pure true else
    let _ ← accept '+'
    pure false
  let written ← digits
  if written.isEmpty then failure
  match takeBelow exponentLimit 0 written with
  | (value, []) => return .within (if negative then -Int.ofNat value else Int.ofNat value)
  | _ => return .beyond negative

/-- The exponent of a number, if one is in front. -/
def exponent? : Reader (Option Exponent) := do
  if ← accept 'e' then return some (← exponent)
  else if ← accept 'E' then return some (← exponent)
  else return none

def signed (negative : Bool) (x : Float) : Float := if negative then -x else x

/-- A number that starts with the given digits. -/
def numberFrom (negative : Bool) (whole : List Char) : Reader Json := do
  let (significand, dropped) := takeBelow significandLimit 0 whole
  let fraction ← if ← accept '.' then
    let fraction ← digits
    if fraction.isEmpty then failure
    pure (some fraction)
  else pure none
  let written ← exponent?
  match dropped, fraction, written with
  | [], none, none =>
    if negative && (significand = 0 || Nat.pow 2 63 < significand) then
      return .real (-Float.ofNat significand)
    else return .integer (if negative then -Int.ofNat significand else Int.ofNat significand)
  | _, _, _ =>
    let (all, left) := takeBelow significandLimit significand (fraction.getD [])
    let places : Int := dropped.length - ((fraction.getD []).length - left.length : Nat)
    match written with
    | some (.beyond below) =>
      if all = 0 || below then return .real (signed negative 0) else failure
    | some (.within value) =>
      return .real (signed negative (← (scale? (Float.ofNat all) (places + value) : Option Float)))
    | none =>
      return .real (signed negative (← (scale? (Float.ofNat all) places : Option Float)))

/-- A number: no zero stands in front of other digits. -/
def number : Reader Json := do
  let negative ← accept '-'
  match ← digits with
  | [] => failure
  | ['0'] => numberFrom negative ['0']
  | '0' :: _ => failure
  | whole => numberFrom negative whole

/-! ## Values -/

/-- The items of an array behind its opening bracket. -/
def itemsWithin (item : Reader Json) : Nat → Reader (List Json)
  | 0 => failure
  | rounds + 1 => do
    let first ← item
    skipBlanks
    if ← accept ',' then
      return first :: (← itemsWithin item rounds)
    else
      require ']'
      return [first]

def member (item : Reader Json) : Reader (String × Json) := do
  skipBlanks
  require '"'
  let key ← string
  skipBlanks
  require ':'
  return (key, ← item)

/-- The members of an object behind its opening brace. -/
def membersWithin (item : Reader Json) : Nat → Reader (List (String × Json))
  | 0 => failure
  | rounds + 1 => do
    let first ← member item
    skipBlanks
    if ← accept ',' then
      return first :: (← membersWithin item rounds)
    else
      require '}'
      return [first]

/-- An array or object behind its opening character, over the rule for what is inside it. -/
def items (item : Reader Json) : Reader Json := do
  skipBlanks
  if ← accept ']' then return .array []
  else return .array (← bounded (itemsWithin item))

def members (item : Reader Json) : Reader Json := do
  skipBlanks
  if ← accept '}' then return .object []
  else return .object (← bounded (membersWithin item))

/-- A value, over the rule for the values inside it; without one it holds no array and no object. -/
def valueRule (inner : Option (Reader Json)) : Reader Json := do
  skipBlanks
  match (← get).head? with
  | some 'n' =>
    requireAll "null".toList
    return .null
  | some 't' =>
    requireAll "true".toList
    return .bool true
  | some 'f' =>
    requireAll "false".toList
    return .bool false
  | some '"' =>
    require '"'
    return .string (← string)
  | some '[' =>
    let item ← (inner : Option (Reader Json))
    require '['
    items item
  | some '{' =>
    let item ← (inner : Option (Reader Json))
    require '{'
    members item
  | _ => number

/-- A value that holds arrays and objects at most `depth` deep. -/
def valueAt : Nat → Reader Json
  | 0 => valueRule none
  | depth + 1 => valueRule (some (valueAt depth))

/-- How deep arrays and objects may nest. -/
def depthLimit : Nat := 127

def document : Reader Json := do
  let json ← valueAt depthLimit
  skipBlanks
  unless (← get).isEmpty do failure
  return json

end Reader

/-- The value that a text denotes, if it is JSON. -/
def ofText? (text : String) : Option Json := Reader.document.run' text.toList

end Json
end MessageTemplate
