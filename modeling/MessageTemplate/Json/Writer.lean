import MessageTemplate.Decimal.Shortest
import MessageTemplate.Json.Basic

/-!
# Writing JSON

The compact layout has no blanks. The pretty one puts each member and item on a
line of its own, indented by two spaces for each level, and keeps empty arrays
and objects on one line.
-/

namespace MessageTemplate
namespace Json

inductive Layout
  | compact | pretty
deriving Repr, DecidableEq

namespace Layout

/-- What separates items at the given depth. -/
def lineBreak : Layout → Nat → List Char
  | compact, _ => []
  | pretty, depth => '\n' :: List.replicate (2 * depth) ' '

def colon : Layout → List Char
  | compact => [':']
  | pretty => [':', ' ']

end Layout

def hexDigit (n : Nat) : Char := Nat.digitChar (n % 16)

/-- A character inside a string: quotes, backslashes and control characters are escaped. -/
def escape (c : Char) : List Char :=
  match c with
  | '"' => ['\\', '"']
  | '\\' => ['\\', '\\']
  | '\x08' => ['\\', 'b']
  | '\t' => ['\\', 't']
  | '\n' => ['\\', 'n']
  | '\x0c' => ['\\', 'f']
  | '\r' => ['\\', 'r']
  | _ =>
    if c.toNat < 0x20 then ['\\', 'u', '0', '0', hexDigit (c.toNat / 16), hexDigit c.toNat]
    else [c]

def quoted (text : String) : List Char := '"' :: text.toList.flatMap escape ++ ['"']

/-- A double-precision number; what is not finite has no form in JSON and is null. -/
def realText (x : Float) : List Char :=
  match Binary64.ofFloat x with
  | .finite _ _ _ => (Decimal.text x).toList
  | _ => "null".toList

/-- Wrap written items, each on its line, in brackets. -/
def enclose (layout : Layout) (depth : Nat) (opening closing : Char) (items : List (List Char)) :
    List Char :=
  if items.isEmpty then [opening, closing]
  else
    opening :: [','].intercalate (items.map fun item => layout.lineBreak (depth + 1) ++ item) ++
      layout.lineBreak depth ++ [closing]

mutual

/-- The text of a value that stands at the given depth. -/
def writeAt (layout : Layout) : Nat → Json → List Char
  | _, null => "null".toList
  | _, bool value => (if value then "true" else "false").toList
  | _, integer value => Decimal.intDigits value
  | _, real value => realText value
  | _, string value => quoted value
  | depth, array items => enclose layout depth '[' ']' (writeItems layout (depth + 1) items)
  | depth, object members => enclose layout depth '{' '}' (writeMembers layout (depth + 1) members)

def writeItems (layout : Layout) (depth : Nat) : List Json → List (List Char)
  | [] => []
  | item :: rest => item.writeAt layout depth :: writeItems layout depth rest

def writeMembers (layout : Layout) (depth : Nat) : List (String × Json) → List (List Char)
  | [] => []
  | (key, value) :: rest =>
    (quoted key ++ layout.colon ++ value.writeAt layout depth) :: writeMembers layout depth rest

end

def write (layout : Layout) (json : Json) : String := String.ofList (json.writeAt layout 0)

end Json
end MessageTemplate
